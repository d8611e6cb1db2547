import Ferrotype.Proofs.Grammar.Nesting

/-!
# Token trees as a grammar

What a token tree is, apart from how it is read, and why there may be none at the front of a list.
The grammar puts trees into trees, and the reader keeps a stack of openers.
-/

namespace Ferrotype

/-! ## The grammar -/

/-- One token that is no delimiter, or trees between an opener and the closer of its kind. -/
inductive IsTree : List Token → Prop where
  | token {t : Token} (h : t.kind.isDelim = false) : IsTree [t]
  | group {opener closer : Token} {d : Delim} {trees : List (List Token)}
    (ho : opener.kind = .opener d) (ht : ∀ tree ∈ trees, IsTree tree)
    (hc : closer.kind = .closer d) : IsTree (opener :: (trees.flatten ++ [closer]))

/-- Trees, one behind the other. -/
def AreTrees (ts : List Token) : Prop :=
  ∃ trees : List (List Token), (∀ tree ∈ trees, IsTree tree) ∧ ts = trees.flatten

/-- Groups that are still open, by their openers, the innermost of which comes first. -/
inductive Opens : List Token → List Token → Prop where
  | nothing : Opens [] []
  | group {opener : Token} {d : Delim} {outer ts us : List Token} (h : Opens outer ts)
    (ho : opener.kind = .opener d) (hu : AreTrees us) : Opens (opener :: outer) (ts ++ opener :: us)

/--
Why no tree stands at the front of a list, and the token at fault; at the end of the file there is
none. Of the delimiters before a closer that does not match, each is open or matched.
-/
inductive NoTree : List Token → GrammarFault → Option Token → Prop where
  | finish : NoTree [] .unexpectedFinish none
  | closer {closer : Token} {d : Delim} {ts : List Token} (hc : closer.kind = .closer d) :
    NoTree (closer :: ts) (.unexpectedCloser closer) (some closer)
  | unclosed {opener : Token} {outer ts : List Token} (h : Opens (opener :: outer) ts) :
    NoTree ts (.unclosed opener) (some opener)
  | mismatched {opener closer : Token} {d : Delim} {outer ts us : List Token}
    (h : Opens (opener :: outer) ts) (hc : closer.kind = .closer d) (ho : opener.kind ≠ .opener d) :
    NoTree (ts ++ closer :: us) (.mismatched opener closer) (some closer)

variable {o c t : Token} {d : Delim} {outer tree ts us rest : List Token}

theorem AreTrees.nil : AreTrees [] := ⟨[], by simp, rfl⟩

theorem AreTrees.snoc (hs : AreTrees ts) (ht : IsTree tree) : AreTrees (ts ++ tree) := by
  obtain ⟨trees, h, rfl⟩ := hs
  refine ⟨trees ++ [tree], fun u hu => ?_, by simp⟩
  rcases List.mem_append.1 hu with hu | hu
  · exact h u hu
  · exact List.mem_singleton.1 hu ▸ ht

theorem AreTrees.group (ho : o.kind = .opener d) (hs : AreTrees ts) (hc : c.kind = .closer d) :
    IsTree (o :: (ts ++ [c])) := by
  obtain ⟨trees, h, rfl⟩ := hs
  exact .group ho h hc

theorem delim_or_not (t : Token) : (∃ d, t.kind = .opener d) ∨ (∃ d, t.kind = .closer d) ∨
    t.kind.isDelim = false := by
  by_cases ho : ∃ d, t.kind = .opener d
  · exact .inl ho
  by_cases hc : ∃ d, t.kind = .closer d
  · exact .inr (.inl hc)
  · exact .inr (.inr (Grammar.isDelim_eq_false (not_exists.1 ho) (not_exists.1 hc)))

/-! ## One token more -/

theorem Opens.snoc_tree (h : Opens (o :: outer) ts) (ht : IsTree tree) :
    Opens (o :: outer) (ts ++ tree) := by
  cases h with
  | group h ho hu =>
    rw [List.append_assoc, List.cons_append]
    exact .group h ho (hu.snoc ht)

theorem Opens.snoc_opener (h : Opens outer ts) (ho : o.kind = .opener d) :
    Opens (o :: outer) (ts ++ [o]) := .group h ho .nil

/-- A closer that matches makes a tree of all, or of the innermost group. -/
theorem Opens.snoc_closer (h : Opens (o :: outer) ts) (ho : o.kind = .opener d)
    (hc : c.kind = .closer d) :
    IsTree (ts ++ [c]) ∨ ∃ o' os, outer = o' :: os ∧ Opens (o' :: os) (ts ++ [c]) := by
  cases h with
  | group h _ hu =>
    have ht := hu.group ho hc
    rw [List.append_assoc, List.cons_append]
    cases h with
    | nothing => exact .inl ht
    | group h ho' hu' => exact .inr ⟨_, _, rfl, (Opens.group h ho' hu').snoc_tree ht⟩

theorem Opens.tree_or_none (h : Opens (o :: outer) ts) (us : List Token) :
    (∃ tree rest, IsTree tree ∧ ts ++ us = tree ++ rest) ∨
      ∃ fault t, NoTree (ts ++ us) fault t := by
  -- Each token that is left goes to the groups that are open.
  induction us generalizing o outer ts with
  | nil => exact .inr ⟨_, _, .unclosed (by rwa [List.append_nil])⟩
  | cons t us ih =>
    rw [List.append_cons]
    obtain ⟨d, hd⟩ | ⟨d, hd⟩ | hn := delim_or_not t
    · exact ih (h.snoc_opener hd)
    · by_cases hm : o.kind = .opener d
      · rcases h.snoc_closer hm hd with ht | ⟨o, os, -, ht⟩
        · exact .inl ⟨_, us, ht, rfl⟩
        · exact ih ht
      · rw [← List.append_cons]
        exact .inr ⟨_, _, .mismatched h hd hm⟩
    · exact ih (h.snoc_tree (.token hn))

/-- A tree stands at the front of a list, or there is a reason why none does. -/
theorem tree_or_none (ts : List Token) :
    (∃ tree rest, IsTree tree ∧ ts = tree ++ rest) ∨ ∃ fault t, NoTree ts fault t := by
  cases ts with
  | nil => exact .inr ⟨_, _, .finish⟩
  | cons t ts =>
    obtain ⟨d, hd⟩ | ⟨d, hd⟩ | hn := delim_or_not t
    · exact (Opens.nothing.snoc_opener hd).tree_or_none ts
    · exact .inr ⟨_, _, .closer hd⟩
    · exact .inl ⟨[t], ts, .token hn, rfl⟩

/-! ## The reader -/

namespace Grammar

theorem closeGroup_plain (h : t.kind.isDelim = false) (o : Token) (outer ts : List Token) :
    closeGroup (o :: outer) (t :: ts) = closeGroup (o :: outer) ts := by
  rw [closeGroup]
  split
  · next hd => rw [hd] at h; cases h
  · next hd => rw [hd] at h; cases h
  · rfl

theorem closeGroup_opener (h : t.kind = .opener d) (o : Token) (outer ts : List Token) :
    closeGroup (o :: outer) (t :: ts) = closeGroup (t :: o :: outer) ts := by
  rw [closeGroup, h]

theorem closeGroup_closer (h : t.kind = .closer d) (o : Token) (outer ts : List Token) :
    closeGroup (o :: outer) (t :: ts) =
      if o.kind = .opener d then closeGroup outer ts else .error (.mismatched o t) := by
  rw [closeGroup, h]

/-- Inside of a group the reader goes over the list and is as it was before. -/
def PassesOver (tree : List Token) : Prop :=
  ∀ o outer us, closeGroup (o :: outer) (tree ++ us) = closeGroup (o :: outer) us

theorem passesOver_flatten {trees : List (List Token)} (h : ∀ tree ∈ trees, PassesOver tree) :
    PassesOver trees.flatten := by
  intro o outer us
  induction trees with
  | nil => rfl
  | cons tree trees ih =>
    rw [List.forall_mem_cons] at h
    rw [List.flatten_cons, List.append_assoc, h.1, ih h.2]

theorem passesOver_tree (h : IsTree tree) : PassesOver tree := by
  induction h with
  | token h => exact closeGroup_plain h
  | group ho _ hc ih =>
    intro o outer us
    rw [List.cons_append, closeGroup_opener ho, List.append_assoc, passesOver_flatten ih,
      List.cons_append, closeGroup_closer hc, if_pos ho, List.nil_append]

theorem passesOver_trees (h : AreTrees ts) : PassesOver ts := by
  obtain ⟨trees, h, rfl⟩ := h
  exact passesOver_flatten fun tree ht => passesOver_tree (h tree ht)

theorem dropTree_opener (h : t.kind = .opener d) (ts : List Token) :
    dropTree (t :: ts) = closeGroup [t] ts := by
  rw [dropTree, h]

theorem dropTree_tree (h : IsTree tree) (us : List Token) : dropTree (tree ++ us) = .ok us := by
  cases h with
  | @token t h =>
    rw [List.cons_append, List.nil_append, dropTree]
    split
    · next hd => rw [hd] at h; cases h
    · next hd => rw [hd] at h; cases h
    · rfl
  | @group o c d trees ho ht hc =>
    rw [List.cons_append, dropTree_opener ho, List.append_assoc, passesOver_trees ⟨_, ht, rfl⟩,
      List.cons_append, closeGroup_closer hc, if_pos ho, closeGroup, List.nil_append]

end Grammar

open Grammar

/-- Behind groups that are open the stack holds their openers. -/
theorem Opens.dropTree_append (h : Opens (o :: outer) ts) (us : List Token) :
    dropTree (ts ++ us) = closeGroup (o :: outer) us := by
  induction outer generalizing o ts us with
  | nil =>
    cases h with
    | group h ho hu =>
      cases h
      rw [List.nil_append, List.cons_append, dropTree_opener ho, passesOver_trees hu]
  | cons o' os ih =>
    cases h with
    | group h ho hu =>
      rw [List.append_assoc, ih h, List.cons_append, closeGroup_opener ho, passesOver_trees hu]

theorem NoTree.dropTree_eq {fault : GrammarFault} {at? : Option Token} (h : NoTree ts fault at?) :
    dropTree ts = .error fault := by
  cases h with
  | finish => rfl
  | closer hc => rw [dropTree, hc]
  | unclosed h => rw [← List.append_nil ts, h.dropTree_append, closeGroup]
  | mismatched h hc ho => rw [h.dropTree_append, closeGroup_closer hc, if_neg ho]

namespace Grammar

theorem dropTree_eq_ok : dropTree ts = .ok rest ↔ ∃ tree, IsTree tree ∧ ts = tree ++ rest := by
  constructor
  · intro h
    rcases tree_or_none ts with ⟨tree, us, ht, rfl⟩ | ⟨fault, t, hn⟩
    · rw [dropTree_tree ht] at h
      cases h
      exact ⟨tree, ht, rfl⟩
    · rw [hn.dropTree_eq] at h
      cases h
  · rintro ⟨tree, ht, rfl⟩
    exact dropTree_tree ht rest

theorem dropTree_eq_error {fault : GrammarFault} :
    dropTree ts = .error fault ↔ ∃ at?, NoTree ts fault at? := by
  constructor
  · intro h
    rcases tree_or_none ts with ⟨tree, us, ht, rfl⟩ | ⟨fault', t, hn⟩
    · rw [dropTree_tree ht] at h
      cases h
    · rw [hn.dropTree_eq] at h
      cases h
      exact ⟨t, hn⟩
  · rintro ⟨t, hn⟩
    exact hn.dropTree_eq

end Grammar

end Ferrotype
