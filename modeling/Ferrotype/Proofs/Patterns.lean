import Ferrotype.Proofs.Grammar.Mismatch
import Ferrotype.Proofs.TokenTrees

/-!
# The colon behind a pattern

Whether an input of a function has a pattern is found out by counting the groups that are open, of
whatever kind. The pattern is read over tree by tree, and a tree ends in the closer of its kind.
Both come to the same colon, unless a closer in front of it is of another kind.
-/

namespace Ferrotype

open Grammar

variable {kind : Kind} {ds es : List Delim} {ts us xs ys : List Token} {t : Token} {depth : Nat}
  {stop : Kind → Bool} {fault : GrammarFault}

/-! ## Counting -/

/-- How many groups are open behind a token, if `depth` are before. -/
def Kind.depthAfter (depth : Nat) : Kind → Nat
  | .opener _ => depth + 1
  | .closer _ => depth - 1
  | _ => depth

def depthAfter (depth : Nat) (ts : List Token) : Nat :=
  ts.foldl (fun depth t => t.kind.depthAfter depth) depth

theorem Kind.depthAfter_of_not_delim (h : kind.isDelim = false) (depth : Nat) :
    kind.depthAfter depth = depth := by
  cases kind <;> simp_all [Kind.depthAfter, Kind.isDelim]

/-- As long as the delimiters match, those that are open are as many as are counted. -/
theorem Kind.length_after (h : kind.after ds = some es) :
    es.length = kind.depthAfter ds.length := by
  unfold Kind.after at h
  split at h
  · cases h
    rfl
  · split at h
    · cases h
      exact List.length_tail
    · cases h
  · next ho hc =>
    cases h
    exact (Kind.depthAfter_of_not_delim (isDelim_eq_false ho hc) _).symm

theorem length_openAfter (h : openAfter ds ts = some es) : es.length = depthAfter ds.length ts := by
  induction ts generalizing ds with
  | nil =>
    cases h
    rfl
  | cons t ts ih =>
    rw [openAfter_cons] at h
    obtain ⟨fs, hf, h⟩ := Option.bind_eq_some_iff.1 h
    rw [depthAfter, List.foldl_cons, ← Kind.length_after hf]
    exact ih h

/-! ## The search -/

/-- Outside of groups, these end an input. -/
def Kind.endsInput : Kind → Bool
  | .closer _ | .punct .comma => true
  | _ => false

/-- Outside of groups, these end the search for a colon. -/
def Kind.endsSearch (kind : Kind) : Bool := kind.endsInput || kind == .punct .colon

/-- The tokens that the search for a colon goes over. -/
def searched (depth : Nat) : List Token → List Token
  | [] => []
  | t :: ts =>
    if depth = 0 ∧ t.kind.endsSearch then [] else t :: searched (t.kind.depthAfter depth) ts

theorem hasPattern_token (depth : Nat) (t : Token) (ts : List Token) :
    hasPattern depth (t :: ts) =
      if depth = 0 ∧ t.kind.endsSearch then t.kind == .punct .colon
      else hasPattern (t.kind.depthAfter depth) ts := by
  obtain ⟨kind, text, place⟩ := t
  simp only [hasPattern, Kind.endsSearch]
  split
  · simp [Kind.endsInput, Kind.depthAfter]
  · by_cases hd : depth = 0 <;> simp [Kind.endsInput, Kind.depthAfter, hd]
  · by_cases hd : depth = 0 <;> simp [Kind.endsInput, Kind.depthAfter, hd]
  · by_cases hd : depth = 0 <;> simp [Kind.endsInput, Kind.depthAfter, hd]
  · next ho hc hp hq =>
    have hi : kind.endsInput = false := by
      unfold Kind.endsInput
      split
      · exact absurd rfl (hc _)
      · exact absurd rfl hp
      · rfl
    have hq : kind ≠ .punct .colon := hq
    simp [hi, hq, Kind.depthAfter_of_not_delim (isDelim_eq_false ho hc)]

/-- The search ends in front of a token that ends it, with no group open, or at the end. -/
theorem searched_rest (depth : Nat) (ts : List Token) :
    ∃ rest, ts = searched depth ts ++ rest ∧ hasPattern depth ts = headIs (.punct .colon) rest ∧
      ∀ t us, rest = t :: us →
        t.kind.endsSearch = true ∧ depthAfter depth (searched depth ts) = 0 := by
  induction ts generalizing depth with
  | nil => exact ⟨[], rfl, rfl, by simp⟩
  | cons t ts ih =>
    rw [hasPattern_token, searched]
    split
    · next h =>
      refine ⟨t :: ts, rfl, rfl, ?_⟩
      rintro _ _ ⟨⟩
      exact ⟨h.2, h.1⟩
    · obtain ⟨rest, hs, hp, hr⟩ := ih (t.kind.depthAfter depth)
      exact ⟨rest, congrArg (t :: ·) hs, hp, hr⟩

theorem searched_eq_cons (h : searched depth ts = t :: us) :
    ¬(depth = 0 ∧ t.kind.endsSearch = true) ∧
      ∃ rest, searched (t.kind.depthAfter depth) rest = us := by
  cases ts with
  | nil => cases h
  | cons u ts =>
    rw [searched] at h
    split at h
    · cases h
    · next hu =>
      obtain ⟨rfl, hr⟩ := List.cons.inj h
      exact ⟨hu, ts, hr⟩

/-- No token at which the search would have ended stands where no group is counted. -/
theorem endsSearch_searched (h : searched depth ts = xs ++ t :: ys)
    (hx : depthAfter depth xs = 0) : t.kind.endsSearch = false := by
  induction xs generalizing depth ts with
  | nil =>
    obtain ⟨hn, -⟩ := searched_eq_cons h
    exact Bool.eq_false_iff.2 fun ht => hn ⟨hx, ht⟩
  | cons x xs ih =>
    obtain ⟨-, rest, hr⟩ := searched_eq_cons h
    exact ih hr hx

/-- What ends the search does not stand outside of groups before its end. -/
theorem not_exposed_searched (ts : List Token) :
    ¬Exposed Kind.endsInput (searched 0 ts) ∧ ¬Exposed (· == .punct .colon) (searched 0 ts) := by
  have h (stop : Kind → Bool) (hs : ∀ kind, stop kind = true → kind.endsSearch = true) :
      ¬Exposed stop (searched 0 ts) := by
    rintro ⟨xs, t, ys, h, hx, ht⟩
    have hf := endsSearch_searched h (length_openAfter hx).symm
    rw [hs _ ht] at hf
    cases hf
  exact ⟨h _ fun kind hk => by simp [Kind.endsSearch, hk],
    h _ fun kind hk => by simp [Kind.endsSearch, hk]⟩

/-! ## The colon -/

/-- A search in which all delimiters match ends where no group is open. -/
theorem balanced_searched (h : (openAfter [] (searched 0 ts)).isSome = true)
    (hz : depthAfter 0 (searched 0 ts) = 0) : Balanced (searched 0 ts) := by
  obtain ⟨ds, hd⟩ := Option.isSome_iff_exists.1 h
  have hl := (length_openAfter hd).trans hz
  rwa [List.length_eq_zero_iff.1 hl] at hd

namespace Grammar

/--
Before a colon that the search comes to, the reader of trees goes over what the search goes over,
or over no more of it than to a closer of another kind than the opener.
-/
theorem dropTreesUntil_searched (hs : ts = searched 0 ts ++ t :: us) (ht : t.kind = .punct .colon)
    (hz : depthAfter 0 (searched 0 ts) = 0) :
    Balanced (searched 0 ts) ∧ dropTreesUntil (· == .punct .colon) ts = .ok (t :: us) ∨
      ∃ before opener closer rest, searched 0 ts = before ++ closer :: rest ∧
        BreaksAt before closer ∧
          dropTreesUntil (· == .punct .colon) ts = .error (.mismatched opener closer) := by
  obtain ⟨hi, hc⟩ := not_exposed_searched ts
  by_cases hb : (openAfter [] (searched 0 ts)).isSome = true
  · have hb := balanced_searched hb hz
    refine .inl ⟨hb, ?_⟩
    have hp := dropTreesUntil_past hb hc (t :: us)
    rwa [← hs, dropTreesUntil_cons, if_pos (by simp [ht])] at hp
  rw [Option.not_isSome_iff_eq_none] at hb
  have hbroken : openAfter [] ts = none := by
    rw [hs, openAfter_append, hb]
    rfl
  right
  cases hd : dropTreesUntil (· == .punct .colon) ts with
  | ok rest =>
    -- The reader would stop at a colon outside of groups that the search goes over.
    have hread : Reads [] [] ts rest := dropTreesUntil_reads hd
    obtain ⟨read, hr, ho⟩ := hread
    obtain ⟨u, rest, rfl, hu⟩ := dropTreesUntil_stop hd
    obtain ⟨zs, hz⟩ := append_of_broken (hs.symm.trans hr) hb (by rw [ho]; rfl)
    exact absurd ⟨read, u, zs, hz, ho, hu⟩ hc
  | error fault =>
    cases blames_of_dropTreesUntil hd with
    | @closer before rest k hbal hk =>
      obtain ⟨zs, hz⟩ := append_of_broken hs.symm hb hk.1
      obtain ⟨d, hd⟩ := hk.closer
      exact absurd ⟨before, k, zs, hz, hbal, by rw [hd]; rfl⟩ hi
    | @mismatched before rest k o hk =>
      obtain ⟨zs, hz⟩ := append_of_broken hs.symm hb hk.1
      exact ⟨before, o, k, zs, hz, hk, rfl⟩
    | finish hn => cases hn.symm.trans hbroken
    | unclosed o hn =>
      rw [hbroken] at hn
      cases hn

end Grammar

namespace Cursor

theorem read_skipTo_ok (c : Cursor) {rest : List Token}
    (h : dropTreesUntil stop c.rest = .ok rest) :
    c.read (Rule.skipTo stop) = .ok ((), { c with rest }) := by
  unfold read
  rw [Rule.run_skipTo (u := ()).2 h]

theorem read_skipTo_error (c : Cursor) (h : dropTreesUntil stop c.rest = .error fault) :
    c.read (Rule.skipTo stop) = .error (.ofGrammar c.tokens.finish fault) := by
  unfold read
  rw [Rule.skipTo, Rule.Agree.dropping_error h]

theorem drop_length_add {tokens : List Token} {p : Nat} (h : tokens.drop p = xs ++ us) :
    tokens.drop (p + xs.length) = us := by
  rw [← List.drop_drop, h, List.drop_left]

/--
From any place of any list of tokens: where the search for a colon ends at one, the reader of the
pattern stops at the same one, or is stopped in front of it by a closer of another kind than the
opener. Where the search finds none, and the delimiters that it goes over match, it has come to a
comma or a closer outside of groups or to the end of the file, and none of these and no colon
stands outside of groups in front of there.
-/
theorem pattern_search (tokens : Tokens) (p : Nat) :
    let ts := tokens.list.drop p
    let seen := searched 0 ts
    let found := p + seen.length
    let read := (behind tokens p).read (Rule.skipTo (· == .punct .colon))
    hasPattern 0 ts = headIs (.punct .colon) (tokens.list.drop found) ∧
    (hasPattern 0 ts = true →
      (∃ c, read = .ok ((), c) ∧ c = behind tokens found ∧ c.position = found ∧ Balanced seen) ∨
      ∃ before opener closer rest, seen = before ++ closer :: rest ∧ BreaksAt before closer ∧
        read = .error ⟨.grammar (.mismatched opener closer), some closer.place⟩) ∧
    (hasPattern 0 ts = false → (openAfter [] seen).isSome = true →
      (ts = seen ∨ ∃ t rest, ts = seen ++ t :: rest ∧ Balanced seen ∧ t.kind.endsInput = true) ∧
      ¬Exposed Kind.endsInput seen ∧ ¬Exposed (· == .punct .colon) seen) := by
  intro ts seen found read
  obtain ⟨rest, hs, hp, hr⟩ := searched_rest 0 ts
  have hf : tokens.list.drop found = rest := drop_length_add hs
  refine ⟨hf ▸ hp, fun h => ?_, fun h hb => ⟨?_, not_exposed_searched ts⟩⟩
  · obtain ⟨t, us, rfl, ht⟩ : ∃ t us, rest = t :: us ∧ t.kind = .punct .colon := by
      rw [hp] at h
      cases rest with
      | nil => cases h
      | cons t us => exact ⟨t, us, rfl, by simpa [headIs] using h⟩
    obtain ⟨hb, hd⟩ | ⟨before, opener, closer, rest, hb, hk, hd⟩ :=
      dropTreesUntil_searched hs ht (hr t us rfl).2
    · have hl : found ≤ tokens.list.length := by
        have := congrArg List.length hf
        rw [List.length_drop, List.length_cons] at this
        omega
      refine .inl ⟨behind tokens found, ?_, rfl, position_behind hl, hb⟩
      refine (read_skipTo_ok _ hd).trans ?_
      rw [behind, behind, hf]
    · exact .inr ⟨before, opener, closer, rest, hb, hk, read_skipTo_error _ hd⟩
  · cases rest with
    | nil => exact .inl (hs.trans (List.append_nil _))
    | cons t us =>
      obtain ⟨ht, hz⟩ := hr t us rfl
      have hk : (t.kind == .punct .colon) = false := hp.symm.trans h
      refine .inr ⟨t, us, hs, balanced_searched hb hz, ?_⟩
      simpa [Kind.endsSearch, hk] using ht

/--
A colon behind two groups, one behind groups that are closed in the wrong order, and one behind a
comma, which is of another input.
-/
theorem pattern_search_groups :
    (∃ tokens c, tokenize "(a, [b]): u8" = .ok tokens ∧
      (behind tokens 0).read (Rule.skipTo (· == .punct .colon)) = .ok ((), c) ∧ c.position = 7) ∧
    (∃ tokens opener closer, tokenize "([a)]: u8" = .ok tokens ∧ closer ∈ tokens.list.take 5 ∧
      (behind tokens 0).read (Rule.skipTo (· == .punct .colon)) =
        .error ⟨.grammar (.mismatched opener closer), some closer.place⟩) ∧
    ∃ tokens, tokenize "(a: b), c: d" = .ok tokens ∧
      ¬Exposed (· == .punct .colon) (tokens.list.take 5) := by
  refine ⟨?_, ?_, ?_⟩
  · let tokens : Tokens := ⟨[⟨.opener .paren, "(", ⟨1, 1⟩⟩, ⟨.identifier, "a", ⟨1, 2⟩⟩,
      ⟨.punct .comma, ",", ⟨1, 3⟩⟩, ⟨.opener .bracket, "[", ⟨1, 5⟩⟩, ⟨.identifier, "b", ⟨1, 6⟩⟩,
      ⟨.closer .bracket, "]", ⟨1, 7⟩⟩, ⟨.closer .paren, ")", ⟨1, 8⟩⟩,
      ⟨.punct .colon, ":", ⟨1, 9⟩⟩, ⟨.identifier, "u8", ⟨1, 11⟩⟩], ⟨1, 13⟩⟩
    have ht : tokenize "(a, [b]): u8" = .ok tokens := ok_of_toOption (by decide +kernel)
    obtain ⟨c, hc, -, hp, -⟩ | ⟨before, o, k, rest, hs, hk, -⟩ := (pattern_search tokens 0).2.1 rfl
    · exact ⟨tokens, c, ht, hc, hp⟩
    · have hb : Balanced (searched 0 tokens.list) := by decide
      exact absurd (hs ▸ hb) (hk.not_balanced rest)
  · let tokens : Tokens := ⟨[⟨.opener .paren, "(", ⟨1, 1⟩⟩, ⟨.opener .bracket, "[", ⟨1, 2⟩⟩,
      ⟨.identifier, "a", ⟨1, 3⟩⟩, ⟨.closer .paren, ")", ⟨1, 4⟩⟩, ⟨.closer .bracket, "]", ⟨1, 5⟩⟩,
      ⟨.punct .colon, ":", ⟨1, 6⟩⟩, ⟨.identifier, "u8", ⟨1, 8⟩⟩], ⟨1, 10⟩⟩
    have ht : tokenize "([a)]: u8" = .ok tokens := ok_of_toOption (by decide +kernel)
    obtain ⟨_, -, -, -, hb⟩ | ⟨before, o, k, rest, hs, hk, he⟩ :=
      (pattern_search tokens 0).2.1 rfl
    · exact absurd hb (by decide)
    · refine ⟨tokens, o, k, ht, ?_, he⟩
      have hm : k ∈ before ++ k :: rest := by simp
      exact (hs ▸ hm : k ∈ searched 0 tokens.list)
  · let tokens : Tokens := ⟨[⟨.opener .paren, "(", ⟨1, 1⟩⟩, ⟨.identifier, "a", ⟨1, 2⟩⟩,
      ⟨.punct .colon, ":", ⟨1, 3⟩⟩, ⟨.identifier, "b", ⟨1, 5⟩⟩, ⟨.closer .paren, ")", ⟨1, 6⟩⟩,
      ⟨.punct .comma, ",", ⟨1, 7⟩⟩, ⟨.identifier, "c", ⟨1, 9⟩⟩, ⟨.punct .colon, ":", ⟨1, 10⟩⟩,
      ⟨.identifier, "d", ⟨1, 12⟩⟩], ⟨1, 13⟩⟩
    have ht : tokenize "(a: b), c: d" = .ok tokens := ok_of_toOption (by decide +kernel)
    exact ⟨tokens, ht, ((pattern_search tokens 0).2.2 rfl rfl).2.2⟩

end Cursor

end Ferrotype
