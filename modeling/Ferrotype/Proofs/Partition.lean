import Ferrotype.Proofs.Token.Comment
import Ferrotype.Proofs.Token.Join
import Mathlib.Data.List.TakeWhile

/-!
# A text and its tokens

A text falls into the lexemes of its tokens and what stands between them. Nothing is lost or read
twice, and the place of a token counts the lines and characters before its lexeme.
-/

namespace Ferrotype

open Text

/-! ## Places -/

/-- A line for each new line, and a column for each character since the last one. -/
def placeBehind (s : List Char) : Position where
  line := 1 + s.count '\n'
  column := 1 + (s.reverse.takeWhile (· ≠ '\n')).length

theorem placeBehind_next (s : List Char) (c : Char) :
    (placeBehind s).next c = placeBehind (s ++ [c]) := by
  by_cases hc : c = '\n'
  · simp [placeBehind, Position.next, hc, Nat.add_assoc]
  · simp [placeBehind, Position.next, hc, Nat.add_assoc]

theorem placeBehind_after (s t : List Char) : (placeBehind s).after t = placeBehind (s ++ t) := by
  induction t generalizing s with
  | nil => simp
  | cons c t ih => rw [Position.after_cons, placeBehind_next, ih, List.append_assoc]; rfl

/-! ## Lexemes and what stands between them -/

/--
The lexeme of a token of a kind and a text. It is the text itself, but for a name behind `r#` and
for a doc comment, which has marks around its text and may have carriage returns behind it.
-/
inductive LexemeOf : Kind → List Char → List Char → Prop where
  | plain {kind : Kind} {text : List Char} (hk : ∀ style, kind ≠ .doc style) : LexemeOf kind text text
  | rawName {text : List Char} : LexemeOf .identifier text ('r' :: '#' :: text)
  | lineDoc {style : DocStyle} {body text : List Char} {n : Nat}
    (hm : LineMark style body (text ++ List.replicate n '\r')) (hr : text.getLast? ≠ some '\r')
    (hn : '\n' ∉ body) : LexemeOf (.doc style) text ('/' :: '/' :: body)
  | blockDoc {style : DocStyle} {body text : List Char} (hm : BlockMark style body text)
    (hi : Inside (body ++ ['*', '/'])) :
    LexemeOf (.doc style) text ('/' :: '*' :: (body ++ ['*', '/']))

/-- Nothing is left of the line. -/
def EndsLine (s : List Char) : Prop := ∀ c ∈ s.head?, c = '\n'

/-- A text behind `before` consists of blanks, comments and the lexemes of tokens. -/
inductive Partition : List Char → List Char → List Token → Prop where
  | nil {before : List Char} : Partition before [] []
  | blank {before s : List Char} {ts : List Token} {c : Char} (hc : isBlank c = true)
    (h : Partition (before ++ [c]) s ts) : Partition before (c :: s) ts
  | lineComment {before t s : List Char} {ts : List Token} (ht : IsLineComment t) (hs : EndsLine s)
    (h : Partition (before ++ t) s ts) : Partition before (t ++ s) ts
  | blockComment {before t s : List Char} {ts : List Token} (ht : IsBlockComment t)
    (h : Partition (before ++ t) s ts) : Partition before (t ++ s) ts
  | token {before lexeme s : List Char} {ts : List Token} {kind : Kind} {text : String}
    (hl : LexemeOf kind text.toList lexeme) (hne : lexeme ≠ [])
    (h : Partition (before ++ lexeme) s ts) :
    Partition before (lexeme ++ s) (⟨kind, text, placeBehind before⟩ :: ts)

/-- An interpreter line, or nothing. -/
def IsShebang (line rest : List Char) : Prop :=
  line = [] ∨ (∃ t, line = '#' :: '!' :: t) ∧ '\n' ∉ line ∧ EndsLine rest

variable {before s t rest : List Char} {ts : List Token} {c : Char} {l : Lexeme}

/-! ## The first lexeme -/

/-- What a lexeme with `rest` behind it may be. -/
inductive Lexeme.Sound (rest : List Char) : Lexeme → Prop where
  | blanks {s : List Char} (h : ∀ c ∈ s, isBlank c = true) : Sound rest ⟨s, none⟩
  | lineComment {s : List Char} (h : IsLineComment s) (hr : EndsLine rest) : Sound rest ⟨s, none⟩
  | blockComment {s : List Char} (h : IsBlockComment s) : Sound rest ⟨s, none⟩
  | token {s : List Char} {kind : Kind} {text : String} (h : LexemeOf kind text.toList s) :
    Sound rest ⟨s, some (kind, text)⟩

def Cut.Sound (cut : Cut) : Prop := ∀ l rest, cut = .ok (l, rest) → l.Sound rest

theorem sound_ok (h : l.Sound rest) : Cut.Sound (.ok (l, rest)) := by
  intro l' rest' h'
  cases h'
  exact h

theorem sound_error {fault : LexFault} : Cut.Sound (.error fault) := fun _ _ h => nomatch h

theorem sound_plain {kind : Kind} (hk : ∀ style, kind ≠ .doc style) (s rest : List Char) :
    (Lexeme.plain kind s).Sound rest := by
  refine .token ?_
  rw [String.toList_ofList]
  exact .plain hk

theorem dropEndWhile_return (s : List Char) :
    ∃ n, s = dropEndWhile (· = '\r') s ++ List.replicate n '\r' ∧
      (dropEndWhile (· = '\r') s).getLast? ≠ some '\r' := by
  have hs : (s.reverse.dropWhile (· = '\r')).reverse ++
      (s.reverse.takeWhile (· = '\r')).reverse = s := by
    rw [← List.reverse_append, List.takeWhile_append_dropWhile, List.reverse_reverse]
  have ht : (s.reverse.takeWhile (· = '\r')).reverse =
      List.replicate (s.reverse.takeWhile (· = '\r')).reverse.length '\r' := by
    refine List.eq_replicate_of_mem fun c hc => ?_
    simpa using List.mem_takeWhile_imp (List.mem_reverse.1 hc)
  refine ⟨_, hs.symm.trans (congrArg _ ht), fun h => ?_⟩
  have := List.head?_dropWhile_not (fun c : Char => decide (c = '\r')) s.reverse
  rw [dropEndWhile, List.getLast?_reverse] at h
  simp [h] at this

theorem endsLine_dropWhile (s : List Char) : EndsLine (s.dropWhile (· ≠ '\n')) := by
  intro c hc
  have := List.head?_dropWhile_not (fun c : Char => decide (c ≠ '\n')) s
  rw [Option.mem_def.1 hc] at this
  simpa using this

theorem sound_lineComment (s : List Char) : (lineComment s).1.Sound (lineComment s).2 := by
  have hn : '\n' ∉ s.takeWhile (· ≠ '\n') := fun h => by
    simpa using List.mem_takeWhile_imp h
  unfold lineComment
  cases hd : lineDoc? (s.takeWhile (· ≠ '\n')) with
  | none => exact .lineComment ⟨_, rfl, hn, lineDoc?_eq_none.1 hd⟩ (endsLine_dropWhile s)
  | some d =>
    obtain ⟨style, text, hk, hm, hv⟩ := lineDoc?_eq_some hd
    obtain ⟨n, ht, hl⟩ := dropEndWhile_return text
    obtain ⟨kind, value⟩ := d
    obtain ⟨rfl, rfl⟩ : kind = .doc style ∧ value = _ := ⟨hk, hv⟩
    refine .token ?_
    rw [String.toList_ofList]
    rw [ht] at hm
    exact .lineDoc hm hl hn

theorem sound_blockComment (s : List Char) : (blockComment s).Sound := by
  unfold blockComment
  cases hc : closeComment 0 s with
  | none => exact sound_error
  | some r =>
    obtain ⟨t, ts, hl, hf, hi, -⟩ := closeComment_inside hc
    obtain rfl := List.length_eq_zero_iff.1 hl
    rw [List.flatten_nil, List.append_nil] at hf
    rw [hf] at hi
    refine sound_ok ?_
    cases hd : blockDoc? r.1 with
    | none => exact .blockComment ⟨_, rfl, hi, blockDoc?_eq_none.1 hd⟩
    | some d =>
      obtain ⟨style, text, hk, hm, hv⟩ := blockDoc?_eq_some hd
      obtain ⟨kind, value⟩ := d
      obtain ⟨rfl, rfl⟩ : kind = .doc style ∧ value = _ := ⟨hk, hv⟩
      refine .token ?_
      rw [String.toList_ofList]
      exact .blockDoc hm hi

theorem CutOff.sound (h : CutOff s l rest) : l.Sound rest := by
  cases h with
  | blanks hc =>
    exact .blanks (List.forall_mem_cons.2 ⟨hc, fun d hd => List.mem_takeWhile_imp hd⟩)
  | lineComment h =>
    cases h
    exact sound_lineComment _
  | blockComment h => exact sound_blockComment _ _ _ h
  | quoted ho h =>
    obtain ⟨chars, rfl⟩ := quotedLiteral_kind h
    exact sound_plain (by cases ho <;> simp) chars rest
  | raw ho h =>
    obtain ⟨chars, rfl⟩ := rawLiteral_kind h
    exact sound_plain (by cases ho <;> simp) chars rest
  | rawWord _ h =>
    cases h
    refine .token ?_
    rw [String.toList_ofList]
    exact .rawName
  | charOrLifetime h =>
    obtain ⟨kind, chars, rfl, rfl | rfl⟩ := charOrLifetime_kind h
    all_goals exact sound_plain (by simp) chars rest
  | number _ h =>
    obtain ⟨kind, chars, rfl, rfl | rfl⟩ := number_kind h
    all_goals exact sound_plain (by simp) chars rest
  | letter _ _ _ h | word _ _ h =>
    obtain ⟨kind, chars, rfl, rfl | rfl | ⟨k, rfl⟩⟩ := word_kind h
    all_goals exact sound_plain (by simp) chars rest
  | mark _ h _ => exact sound_plain (by cases (mark?_eq_some h).1 <;> simp) _ _

theorem sound_firstLexeme (c : Char) (s : List Char) : (firstLexeme c s).Sound :=
  fun _ _ h => (cutOff_of_firstLexeme h).sound

/-! ## Whole texts -/

theorem EndsLine.of_prefix (h : EndsLine rest) (hp : s <+: rest) : EndsLine s := by
  obtain ⟨t, rfl⟩ := hp
  intro c hc
  refine h c ?_
  simp [List.head?_append, Option.mem_def.1 hc]

theorem Partition.blanks (hb : ∀ c ∈ t, isBlank c = true) (h : Partition (before ++ t) s ts) :
    Partition before (t ++ s) ts := by
  induction t generalizing before with
  | nil => simpa using h
  | cons c t ih =>
    rw [List.forall_mem_cons] at hb
    exact .blank hb.1 (ih hb.2 (by simpa using h))

/-- A lexeme is put before the partition of a text that starts as what is behind the lexeme. -/
theorem Lexeme.Sound.partition (hl : l.Sound rest) (hne : l.chars ≠ []) (hs : s <+: rest)
    (h : Partition (before ++ l.chars) s ts) :
    Partition before (l.chars ++ s) ((l.token? (placeBehind before)).toList ++ ts) := by
  cases hl with
  | blanks hb => exact .blanks hb h
  | lineComment ht hr => exact .lineComment ht (hr.of_prefix hs) h
  | blockComment ht => exact .blockComment ht h
  | token ht => exact .token ht hne h

theorem partition_of_tokensFrom (h : tokensFrom (placeBehind before) s = .ok ts) :
    Partition before s ts := by
  refine tokensFrom_induction (fun p s ts => ∀ before, p = placeBehind before →
    Partition before s ts) ?_ ?_ ?_ h before rfl
  · exact fun _ _ _ => .nil
  · rintro _ c s ts hc ih before rfl
    exact .blank hc (ih _ (placeBehind_next before c))
  · rintro _ c s l rest ts - hf happ ih before rfl
    rw [← happ]
    exact (sound_firstLexeme c s l rest hf).partition (splits_firstLexeme c s l rest hf).2
      (List.prefix_refl _) (ih _ (placeBehind_after before l.chars))

/-- Before the lexeme at fault the text is partitioned. -/
theorem partition_of_fault {fault : LexFault} {p : Position}
    (h : tokensFrom (placeBehind before) s = .error (fault, p)) :
    ∃ text c rest ts, s = text ++ c :: rest ∧ Partition before text ts ∧
      p = placeBehind (before ++ text) ∧ firstLexeme c rest = .error fault := by
  induction hn : s.length using Nat.strongRecOn generalizing before s with
  | ind n ih =>
  subst hn
  cases s with
  | nil =>
    rw [tokensFrom_nil] at h
    cases h
  | cons c t =>
    cases hf : firstLexeme c t with
    | error fault' =>
      rw [tokensFrom_fault hf] at h
      cases h
      exact ⟨[], c, t, [], rfl, .nil, by simp, hf⟩
    | ok r =>
      obtain ⟨l, rest⟩ := r
      obtain ⟨happ, hne⟩ := splits_firstLexeme c t l rest hf
      have hlt := firstLexeme_length hf
      have hr : tokensFrom (placeBehind (before ++ l.chars)) rest = .error (fault, p) := by
        rw [tokensFrom_cut hf, placeBehind_after] at h
        cases ht : tokensFrom (placeBehind (before ++ l.chars)) rest <;> simp_all [Except.map]
      obtain ⟨text, d, rest', ts, rfl, hp, rfl, hd⟩ := ih rest.length hlt hr rfl
      have hs := sound_firstLexeme c t l _ hf
      refine ⟨l.chars ++ text, d, rest', _, ?_, hs.partition hne (List.prefix_append _ _) hp, ?_, hd⟩
      · rw [← happ, List.append_assoc]
      · rw [List.append_assoc]

theorem isShebang_shebang (s : List Char) : IsShebang (shebang s) (s.drop (shebang s).length) := by
  unfold shebang
  split
  · next t =>
    split
    · exact .inl rfl
    · refine .inr ⟨⟨t.takeWhile (· ≠ '\n'), by simp⟩, fun h => ?_, ?_⟩
      · simpa using List.mem_takeWhile_imp h
      · rw [drop_takeWhile]
        exact endsLine_dropWhile _
  · exact .inl rfl

theorem shebang_append (s : List Char) : shebang s ++ s.drop (shebang s).length = s :=
  List.prefix_iff_eq_append.1 (prefix_shebang s)

/--
A text with tokens is an interpreter line, if it has one, and then blanks, comments that are no doc
comments, and the lexemes of the tokens, each at the place behind what stands before it. Of a text
without tokens this holds up to a lexeme that cannot be read, and its place is reported.
-/
theorem tokenize_partition (source : String) :
    (∀ tokens, tokenize source = .ok tokens → ∃ line text,
      source.toList = line ++ text ∧ IsShebang line text ∧ Partition line text tokens.list ∧
        tokens.finish = placeBehind source.toList) ∧
      ∀ e, tokenize source = .error e → ∃ line text c rest ts fault,
        source.toList = line ++ (text ++ c :: rest) ∧ IsShebang line (text ++ c :: rest) ∧
          Partition line text ts ∧ firstLexeme c rest = .error fault ∧
          e = ⟨.lexical fault, some (placeBehind (line ++ text))⟩ := by
  have hp (t : List Char) : Position.start.after t = placeBehind t := placeBehind_after [] t
  constructor
  · intro tokens h
    obtain ⟨ht, hf⟩ := tokenize_eq_ok.1 h
    rw [hp] at ht hf
    exact ⟨_, _, (shebang_append _).symm, isShebang_shebang _, partition_of_tokensFrom ht, hf⟩
  · intro e h
    rw [tokenize_eq, hp] at h
    split at h
    · next fault p hf =>
      cases h
      obtain ⟨text, c, rest, ts, hs, ht, rfl, hl⟩ := partition_of_fault hf
      have hb := isShebang_shebang source.toList
      have ha := shebang_append source.toList
      rw [hs] at hb ha
      exact ⟨_, text, c, rest, ts, fault, ha.symm, hb, ht, hl, rfl⟩
    · cases h

/-- A name behind `r#` with a comment behind it, and a literal that has no end. -/
theorem tokenize_partition_name :
    (∃ tokens, tokenize "r#type /* /* */ */" = .ok tokens ∧ ∃ line text,
      "r#type /* /* */ */".toList = line ++ text ∧ Partition line text tokens.list) ∧
      ∃ e, tokenize "a\n \"b" = .error e ∧ ∃ before rest,
        "a\n \"b".toList = before ++ rest ∧ e.place = some (placeBehind before) := by
  constructor
  · obtain ⟨tokens, ht⟩ : ∃ tokens, tokenize "r#type /* /* */ */" = .ok tokens :=
      exists_ok_of_isSome (by decide +kernel)
    obtain ⟨line, text, hs, -, hp, -⟩ := (tokenize_partition _).1 tokens ht
    exact ⟨tokens, ht, line, text, hs, hp⟩
  · have hn : (tokenize "a\n \"b").toOption.isNone = true := by decide +kernel
    cases he : tokenize "a\n \"b" with
    | ok tokens =>
      rw [he] at hn
      cases hn
    | error e =>
      obtain ⟨line, text, c, rest, ts, fault, hs, -, -, -, rfl⟩ := (tokenize_partition _).2 e he
      exact ⟨_, rfl, line ++ text, c :: rest, by rw [hs, List.append_assoc], rfl⟩

end Ferrotype
