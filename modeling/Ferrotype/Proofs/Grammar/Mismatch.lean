import Ferrotype.Proofs.Grammar.Exposed
import Ferrotype.Proofs.Grammar.Trees

/-!
# Delimiters that do not match

Reading over trees fails at the first closer that does not match, or at the end of the list.
-/

namespace Ferrotype

open Grammar

variable {ts us xs ys : List Token} {t : Token} {stop : Kind → Bool} {fault : GrammarFault}

/-! ## The first one -/

/-- The delimiters match up to a token, and not with it. -/
def BreaksAt (before : List Token) (t : Token) : Prop :=
  (openAfter [] before).isSome ∧ openAfter [] (before ++ [t]) = none

theorem BreaksAt.closer (h : BreaksAt xs t) : ∃ d, t.kind = .closer d := by
  obtain ⟨hx, hn⟩ := h
  obtain ⟨ds, hd⟩ := Option.isSome_iff_exists.1 hx
  rw [openAfter_append, hd, Option.bind_some, openAfter_cons] at hn
  obtain ⟨d, hk⟩ | ⟨d, hk⟩ | hk := delim_or_not t
  · rw [hk] at hn
    cases hn
  · exact ⟨d, hk⟩
  · rw [Kind.after_of_not_delim hk] at hn
    cases hn

theorem BreaksAt.append (hx : Balanced xs) (h : BreaksAt ys t) : BreaksAt (xs ++ ys) t := by
  unfold Balanced at hx
  unfold BreaksAt at h ⊢
  rwa [List.append_assoc, openAfter_append [] xs, openAfter_append [] xs, hx]

theorem BreaksAt.not_balanced (h : BreaksAt xs t) (ys : List Token) :
    ¬Balanced (xs ++ t :: ys) := by
  intro hb
  unfold Balanced at hb
  rw [List.append_cons, openAfter_append, h.2] at hb
  cases hb

/-- What is right up to a token, in a list that starts wrong, ends within the start. -/
theorem append_of_broken (h : xs ++ us = ys ++ t :: ts) (hx : openAfter [] xs = none)
    (hy : (openAfter [] ys).isSome = true) : ∃ zs, xs = ys ++ t :: zs := by
  obtain ⟨zs, rfl, -⟩ | ⟨zs, rfl, hz⟩ := List.append_eq_append_iff.1 h
  · rw [openAfter_append, hx] at hy
    cases hy
  · cases zs with
    | nil =>
      rw [List.append_nil] at hx
      rw [hx] at hy
      cases hy
    | cons z zs =>
      obtain ⟨rfl, -⟩ := List.cons.inj hz
      exact ⟨zs, rfl⟩

/-! ## What trees leave open -/

theorem IsTree.openAfter (h : IsTree xs) (ds : List Delim) : openAfter ds xs = some ds := by
  have hd : Reads ds ds (xs ++ []) [] := dropTree_reads (dropTree_tree h [])
  obtain ⟨read, hr, ho⟩ := hd
  rw [List.append_nil, List.append_nil] at hr
  exact hr ▸ ho

theorem AreTrees.openAfter (h : AreTrees xs) (ds : List Delim) : openAfter ds xs = some ds := by
  obtain ⟨trees, h, rfl⟩ := h
  induction trees with
  | nil => rfl
  | cons tree trees ih =>
    rw [List.forall_mem_cons] at h
    rw [List.flatten_cons, openAfter_append, h.1.openAfter]
    exact ih h.2

/-- The openers that a reader of trees keeps are those that are open. -/
theorem Opens.openAfter {openers : List Token} (h : Opens openers ts) :
    ∃ ds, openAfter [] ts = some ds ∧ openers.map Token.kind = ds.map .opener := by
  induction h with
  | nothing => exact ⟨[], rfl, rfl⟩
  | @group opener d outer ts us _ ho hu ih =>
    obtain ⟨ds, hd, hk⟩ := ih
    refine ⟨d :: ds, ?_, by simp [ho, hk]⟩
    rw [openAfter_append, hd, Option.bind_some, openAfter_cons, ho]
    exact hu.openAfter _

/-! ## What the reader blames -/

/--
A fault of reading over trees is at the first closer that does not match, which is in no group or
of another kind than the opener, or at the end, if all of them match.
-/
inductive Blames : GrammarFault → List Token → Prop where
  | closer {before rest : List Token} {k : Token} (hb : Balanced before) (hk : BreaksAt before k) :
    Blames (.unexpectedCloser k) (before ++ k :: rest)
  | mismatched {before rest : List Token} {k : Token} (o : Token) (hk : BreaksAt before k) :
    Blames (.mismatched o k) (before ++ k :: rest)
  | finish {us : List Token} (hb : Balanced us) : Blames .unexpectedFinish us
  | unclosed {us : List Token} (o : Token) (h : (openAfter [] us).isSome = true) :
    Blames (.unclosed o) us

theorem Blames.append (hx : Balanced xs) (h : Blames fault ys) : Blames fault (xs ++ ys) := by
  cases h with
  | closer hy h =>
    rw [← List.append_assoc]
    exact .closer (hx.append_iff.2 hy) (h.append hx)
  | mismatched o h =>
    rw [← List.append_assoc]
    exact .mismatched o (h.append hx)
  | finish hy => exact .finish (hx.append_iff.2 hy)
  | unclosed o h =>
    refine .unclosed o ?_
    unfold Balanced at hx
    rwa [openAfter_append, hx]

theorem NoTree.blames {at? : Option Token} (h : NoTree ts fault at?) : Blames fault ts := by
  cases h with
  | finish => exact .finish rfl
  | closer hk =>
    refine @Blames.closer [] _ _ rfl ⟨rfl, ?_⟩
    rw [List.nil_append, openAfter_cons, hk]
    rfl
  | unclosed h =>
    obtain ⟨ds, hd, -⟩ := h.openAfter
    exact .unclosed _ (Option.isSome_iff_exists.2 ⟨ds, hd⟩)
  | @mismatched o k d outer before rest h hk ho =>
    obtain ⟨ds, hd, hm⟩ := h.openAfter
    obtain ⟨e, es, rfl, he, -⟩ := List.map_eq_cons_iff.1 hm.symm
    have hne : e ≠ d := fun h => ho (h ▸ he.symm)
    refine .mismatched o ⟨Option.isSome_iff_exists.2 ⟨_, hd⟩, ?_⟩
    rw [openAfter_append, hd, Option.bind_some, openAfter_cons, hk]
    simp [Kind.after, hne]

theorem blames_of_dropTreesUntil (h : dropTreesUntil stop ts = .error fault) :
    Blames fault ts := by
  fun_induction dropTreesUntil stop ts with
  | case1 =>
    cases h
    exact .finish rfl
  | case2 => cases h
  | case3 t ts _ fault' hd =>
    cases h
    obtain ⟨at?, hn⟩ := dropTree_eq_error.1 hd
    exact hn.blames
  | case4 t ts _ rest hd ih =>
    obtain ⟨tree, ht, hts⟩ := dropTree_eq_ok.1 hd
    rw [hts]
    exact (ih h).append (ht.openAfter [])

end Ferrotype
