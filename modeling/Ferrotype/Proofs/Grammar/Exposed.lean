import Ferrotype.Proofs.Grammar.Nesting
import Ferrotype.Proofs.Reworded.Steps

/-!
# Token trees of balanced lists

A balanced list is a list of token trees. Reading over trees up to a token of a class stops at the
first one that stands outside of all groups, and goes past the list if there is none.
-/

namespace Ferrotype

variable {ts us : List Token} {stop : Kind → Bool}

/-- A token of a class stands outside of all groups. -/
def Exposed (stop : Kind → Bool) (ts : List Token) : Prop :=
  ∃ xs t ys, ts = xs ++ t :: ys ∧ Balanced xs ∧ stop t.kind = true

theorem exposed_iff : Exposed stop ts ↔
    ∃ i, ∃ h : i < ts.length, Balanced (ts.take i) ∧ stop ts[i].kind = true := by
  constructor
  · rintro ⟨xs, t, ys, rfl, hb, ht⟩
    exact ⟨xs.length, by simp, by simpa using hb, by simpa using ht⟩
  · rintro ⟨i, h, hb, ht⟩
    exact ⟨ts.take i, ts[i], ts.drop (i + 1), by simp, hb, ht⟩

instance : Decidable (Exposed stop ts) := decidable_of_iff' _ exposed_iff

theorem Balanced.append_iff {xs ys : List Token} (h : Balanced xs) :
    Balanced (xs ++ ys) ↔ Balanced ys := by
  unfold Balanced at h ⊢
  rw [openAfter_append, h]
  rfl

/-- Behind trees that are read over, the same tokens are exposed. -/
theorem Exposed.append {xs ys : List Token} (hx : Balanced xs) (h : Exposed stop ys) :
    Exposed stop (xs ++ ys) := by
  obtain ⟨zs, t, ws, rfl, hz, ht⟩ := h
  exact ⟨xs ++ zs, t, ws, by simp, hx.append_iff.2 hz, ht⟩

namespace Grammar

/-! ## One tree -/

/-- What closes the open groups is read up to there, and no less of it closes them. -/
structure Closes (es : List Delim) (xs : List Token) : Prop where
  closed : openAfter es xs = some []
  least : ∀ zs t ws, xs = zs ++ t :: ws → openAfter es zs ≠ some []

theorem Closes.cons {e : Delim} {es fs : List Delim} {t : Token} {xs : List Token}
    (ht : t.kind.after (e :: es) = some fs) (h : Closes fs xs) : Closes (e :: es) (t :: xs) := by
  constructor
  · rw [openAfter_cons, ht]
    exact h.closed
  · intro zs u ws hz
    cases zs with
    | nil => simp [openAfter]
    | cons v zs =>
      obtain ⟨rfl, rfl⟩ := List.cons.inj hz
      rw [openAfter_cons, ht]
      exact h.least zs u ws rfl

theorem Closes.nil : Closes [] [] := ⟨rfl, by simp⟩

/-- Groups that a list closes are closed by the start of it, whatever stands behind. -/
theorem closeGroup_closes (openers : List Token) {es : List Delim}
    (ho : openers.map Token.kind = es.map .opener) (h : openAfter es ts = some []) :
    ∃ xs ys, ts = xs ++ ys ∧ Closes es xs ∧ Balanced ys ∧
      ∀ us, closeGroup openers (xs ++ us) = .ok us := by
  induction ts generalizing openers es with
  | nil =>
    obtain rfl : es = [] := by simpa [openAfter] using h
    obtain rfl : openers = [] := by simpa using ho
    exact ⟨[], [], rfl, .nil, rfl, fun us => by simp [closeGroup]⟩
  | cons t ts ih =>
    cases es with
    | nil =>
      obtain rfl : openers = [] := by simpa using ho
      exact ⟨[], t :: ts, rfl, .nil, h, fun us => by simp [closeGroup]⟩
    | cons e es =>
    obtain ⟨opener, outer, rfl, hk, ho'⟩ := List.map_eq_cons_iff.1 ho
    rw [openAfter_cons] at h
    obtain ⟨fs, hf, h⟩ := Option.bind_eq_some_iff.1 h
    -- The token opens a group, closes the innermost one, or does neither.
    have step (openers' : List Token) (ho : openers'.map Token.kind = fs.map .opener)
        (hs : ∀ us, closeGroup (opener :: outer) (t :: us) = closeGroup openers' us) :
        ∃ xs ys, t :: ts = xs ++ ys ∧ Closes (e :: es) xs ∧ Balanced ys ∧
          ∀ us, closeGroup (opener :: outer) (xs ++ us) = .ok us := by
      obtain ⟨xs, ys, rfl, hx, hy, hc⟩ := ih openers' ho h
      exact ⟨t :: xs, ys, rfl, .cons hf hx, hy, fun us => (hs _).trans (hc us)⟩
    by_cases hopen : ∃ d, t.kind = .opener d
    · obtain ⟨d, hd⟩ := hopen
      rw [hd] at hf
      cases hf
      refine step (t :: opener :: outer) (by simp [hd, hk, ho']) fun us => ?_
      rw [closeGroup, hd]
    by_cases hclose : ∃ d, t.kind = .closer d
    · obtain ⟨d, hd⟩ := hclose
      obtain ⟨rfl, rfl⟩ : e = d ∧ es = fs := by
        rw [hd] at hf
        simpa [Kind.after] using hf
      refine step outer ho' fun us => ?_
      simp [closeGroup, hd, hk]
    · have hn := isDelim_eq_false (not_exists.1 hopen) (not_exists.1 hclose)
      rw [Kind.after_of_not_delim hn] at hf
      cases hf
      refine step (opener :: outer) ho fun us => ?_
      rw [closeGroup]
      split
      · next d hd => exact absurd ⟨d, hd⟩ hopen
      · next d hd => exact absurd ⟨d, hd⟩ hclose
      · rfl

/-- A balanced list starts with a tree, and no token in that tree is exposed but its first. -/
theorem dropTree_balanced {t : Token} (h : Balanced (t :: ts)) :
    ∃ xs ys, ts = xs ++ ys ∧ Balanced (t :: xs) ∧ Balanced ys ∧
      (∀ zs u ws, xs = zs ++ u :: ws → ¬Balanced (t :: zs)) ∧
        ∀ us, dropTree (t :: (xs ++ us)) = .ok us := by
  unfold Balanced at h
  rw [openAfter_cons] at h
  obtain ⟨fs, hf, h⟩ := Option.bind_eq_some_iff.1 h
  have hb (zs : List Token) : Balanced (t :: zs) ↔ openAfter fs zs = some [] := by
    unfold Balanced
    rw [openAfter_cons, hf]
    rfl
  by_cases hopen : ∃ d, t.kind = .opener d
  · obtain ⟨d, hd⟩ := hopen
    rw [hd] at hf
    cases hf
    obtain ⟨xs, ys, rfl, hx, hy, hc⟩ := closeGroup_closes [t] (by simp [hd]) h
    refine ⟨xs, ys, rfl, (hb xs).2 hx.closed, hy, ?_, fun us => ?_⟩
    · intro zs u ws hz hzs
      exact hx.least zs u ws hz ((hb zs).1 hzs)
    · rw [dropTree, hd]
      exact hc us
  · have hclose (d : Delim) : t.kind ≠ .closer d := by
      intro hd
      simp [hd, Kind.after] at hf
    rw [Kind.after_of_not_delim (isDelim_eq_false (not_exists.1 hopen) hclose)] at hf
    cases hf
    refine ⟨[], ts, rfl, (hb []).2 rfl, h, by simp, fun us => ?_⟩
    rw [dropTree]
    split
    · next d hd => exact absurd hd (hclose d)
    · next d hd => exact absurd ⟨d, hd⟩ hopen
    · rfl

/-! ## All trees -/

/-- Nothing stops the reading in a list in which no token of the class is exposed. -/
theorem dropTreesUntil_past (hb : Balanced ts) (he : ¬Exposed stop ts) (us : List Token) :
    dropTreesUntil stop (ts ++ us) = dropTreesUntil stop us := by
  induction hn : ts.length using Nat.strongRecOn generalizing ts with
  | ind n ih =>
  subst hn
  cases ts with
  | nil => rfl
  | cons t ts =>
    have ht : ¬stop t.kind = true := fun ht => he ⟨[], t, ts, rfl, rfl, ht⟩
    obtain ⟨xs, ys, rfl, hx, hy, -, hd⟩ := dropTree_balanced hb
    have hl : ys.length < (t :: (xs ++ ys)).length := by
      simp only [List.length_cons, List.length_append]
      omega
    rw [List.cons_append, List.append_assoc, dropTreesUntil_cons, if_neg ht, hd]
    exact ih ys.length hl hy (fun h => he (h.append hx)) rfl

/-- The reading stops at an exposed token of the class, and leaves what stands behind it. -/
theorem dropTreesUntil_exposed (hb : Balanced ts) (he : Exposed stop ts) (us : List Token) :
    ∃ xs t ys, ts = xs ++ t :: ys ∧ stop t.kind = true ∧ Balanced xs ∧
      dropTreesUntil stop (ts ++ us) = .ok (t :: (ys ++ us)) := by
  induction hn : ts.length using Nat.strongRecOn generalizing ts with
  | ind n ih =>
  subst hn
  cases ts with
  | nil =>
    obtain ⟨xs, t, ys, hs, -⟩ := he
    simp at hs
  | cons t ts =>
    by_cases ht : stop t.kind = true
    · exact ⟨[], t, ts, rfl, ht, rfl, by rw [List.cons_append, dropTreesUntil_cons, if_pos ht]⟩
    obtain ⟨xs, ys, rfl, hx, hy, hleast, hd⟩ := dropTree_balanced hb
    have hl : ys.length < (t :: (xs ++ ys)).length := by
      simp only [List.length_cons, List.length_append]
      omega
    have hys : Exposed stop ys := by
      obtain ⟨zs, u, ws, hs, hz, hu⟩ := he
      cases zs with
      | nil =>
        obtain ⟨rfl, -⟩ := List.cons.inj hs
        exact absurd hu ht
      | cons v zs =>
        obtain ⟨rfl, hr⟩ := List.cons.inj hs
        obtain ⟨vs, rfl, rfl⟩ | ⟨vs, rfl, hv⟩ := List.append_eq_append_iff.1 hr
        · exact ⟨vs, u, ws, rfl, hx.append_iff.1 hz, hu⟩
        · cases vs with
          | nil =>
            obtain rfl : ys = u :: ws := by simpa using hv.symm
            exact ⟨[], u, ws, rfl, rfl, hu⟩
          | cons v' vs =>
            obtain ⟨rfl, rfl⟩ := List.cons.inj hv
            exact absurd hz (hleast zs _ vs rfl)
    obtain ⟨as, u, bs, rfl, hu, ha, h⟩ := ih ys.length hl hy hys rfl
    refine ⟨t :: (xs ++ as), u, bs, by simp, hu, hx.append_iff.2 ha, ?_⟩
    rw [List.cons_append, List.append_assoc, dropTreesUntil_cons, if_neg ht, hd]
    exact h

end Grammar

end Ferrotype
