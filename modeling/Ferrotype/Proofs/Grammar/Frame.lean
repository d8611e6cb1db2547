import Ferrotype.Proofs.Grammar.Nesting

/-!
# Tokens in a longer file

A frame puts the tokens of a text into a longer one: they move down by the lines above it, and
other tokens come behind. A list that ends as an item does is sealed: no test that looks ahead
can tell what comes behind it.
-/

namespace Ferrotype

def Token.down (k : Nat) (t : Token) : Token := { t with place.line := t.place.line + k }

@[simp] theorem Token.down_kind (k : Nat) (t : Token) : (t.down k).kind = t.kind := rfl

@[simp] theorem Token.down_text (k : Nat) (t : Token) : (t.down k).text = t.text := rfl

@[simp] theorem Token.down_line (k : Nat) (t : Token) :
    (t.down k).place.line = t.place.line + k := rfl

/-- What stands around the tokens of a text: lines above and tokens behind. -/
structure Frame where
  above : Nat
  behind : List Token

/-- The tokens at which an item ends, or an attribute of a file. -/
def Kind.endsItem : Kind → Bool
  | .punct .semicolon | .closer .brace | .closer .bracket | .doc .inner => true
  | _ => false

theorem Kind.endsItem_iff {kind : Kind} :
    kind.endsItem = true ↔ kind = .punct .semicolon ∨ kind = .closer .brace ∨
      kind = .closer .bracket ∨ kind = .doc .inner := by
  unfold endsItem
  split <;> simp_all

namespace Frame

variable {w : Frame} {ts rest : List Token} {t u : Token}

def fill (w : Frame) (ts : List Token) : List Token := ts.map (Token.down w.above) ++ w.behind

/-- Nothing comes behind the tokens, or they end as an item does. -/
def Sealed (w : Frame) (ts : List Token) : Prop :=
  w.behind = [] ∨ ∃ t, ts.getLast? = some t ∧ t.kind.endsItem = true

/-- As `Sealed`, but there may be no tokens. -/
def Settled (w : Frame) (ts : List Token) : Prop := ts = [] ∨ w.Sealed ts

@[simp] theorem fill_nil (w : Frame) : w.fill [] = w.behind := rfl

@[simp] theorem fill_cons (w : Frame) (t : Token) (ts : List Token) :
    w.fill (t :: ts) = t.down w.above :: w.fill ts := rfl

theorem length_fill (w : Frame) (ts : List Token) :
    (w.fill ts).length = ts.length + w.behind.length := by
  simp [fill]

theorem length_fill_lt : (w.fill rest).length < (w.fill ts).length ↔ rest.length < ts.length := by
  simp [length_fill]

theorem Sealed.of_suffix (h : w.Sealed rest) (hs : rest <:+ ts) : w.Sealed ts := by
  obtain ⟨read, rfl⟩ := hs
  rcases h with hw | ⟨t, ht, he⟩
  · exact .inl hw
  · exact .inr ⟨t, by simp [List.getLast?_append, ht], he⟩

theorem Sealed.tail (h : w.Sealed (t :: u :: ts)) : w.Sealed (u :: ts) := by
  rcases h with hw | ⟨v, hv, he⟩
  · exact .inl hw
  · exact .inr ⟨v, by simpa [List.getLast?_cons_cons] using hv, he⟩

theorem Sealed.nil (h : w.Sealed []) : w.behind = [] := by
  rcases h with hw | ⟨t, ht, -⟩
  · exact hw
  · cases ht

theorem Sealed.last (h : w.Sealed [t]) : w.behind = [] ∨ t.kind.endsItem = true := by
  rcases h with hw | ⟨v, hv, he⟩
  · exact .inl hw
  · cases hv
    exact .inr he

theorem Settled.sealed_cons (h : w.Settled ts) (ht : t.kind.endsItem = true) :
    w.Sealed (t :: ts) := by
  rcases h with rfl | h
  · exact .inr ⟨t, rfl, ht⟩
  · exact h.of_suffix (List.suffix_cons t ts)

/-! ## Tests that look ahead -/

theorem Sealed.head (h : w.Sealed ts) : (w.fill ts).head? = ts.head?.map (Token.down w.above) := by
  cases ts with
  | nil => simp [h.nil]
  | cons => rfl

theorem Sealed.head_any (h : w.Sealed ts) (p : Kind → Bool) :
    ((w.fill ts).head?.any fun t => p t.kind) = ts.head?.any fun t => p t.kind := by
  rw [h.head]
  cases ts.head? <;> rfl

theorem Sealed.headIs (h : w.Sealed ts) (kind : Kind) :
    Grammar.headIs kind (w.fill ts) = Grammar.headIs kind ts := h.head_any (· == kind)

/-- A test of two tokens, the first of which is none that ends an item. -/
theorem Sealed.pair {test : List Token → Bool} {p q : Token → Bool} (h : w.Sealed ts)
    (hone : ∀ t, test [t] = false)
    (hcons : ∀ t u us, test (t :: u :: us) = (p t && q u))
    (hp : ∀ t, p t = true → t.kind.endsItem = false)
    (hd : ∀ t, p (t.down w.above) = p t ∧ q (t.down w.above) = q t) :
    test (w.fill ts) = test ts := by
  match ts, h with
  | [], h => rw [fill_nil, h.nil]
  | [t], h =>
    rw [fill_cons, fill_nil]
    cases hb : w.behind with
    | nil => rw [hone, hone]
    | cons u us =>
      -- The one token ends an item, so it fails the test with and without a token behind it.
      have ht : t.kind.endsItem = true := h.last.resolve_left (by simp [hb])
      rw [hcons, (hd t).1, hone, Bool.and_eq_false_iff]
      cases hpt : p t with
      | false => exact .inl rfl
      | true => rw [hp t hpt] at ht; cases ht
  | t :: u :: us, _ => rw [fill_cons, fill_cons, hcons, hcons, (hd t).1, (hd u).2]

/-- Behind a token that ends no item, a sealed list stays sealed. -/
theorem Sealed.behind_of_not_end (h : w.Sealed (t :: ts)) (ht : t.kind.endsItem = false) :
    w.Sealed ts := by
  cases ts with
  | nil => exact .inl (h.last.resolve_right (by simp [ht]))
  | cons => exact h.tail

end Frame

/-! ## Token trees -/

namespace Grammar

variable {w : Frame} {ts rest : List Token}

theorem closeGroup_fill {openers : List Token} (h : closeGroup openers ts = .ok rest) :
    closeGroup (openers.map (Token.down w.above)) (w.fill ts) = .ok (w.fill rest) := by
  fun_induction closeGroup openers ts with
  | case1 => cases h; simp [closeGroup]
  | case2 | case5 => cases h
  | case3 opener outer t ts d hd ih => simpa [closeGroup, hd] using ih h
  | case4 opener outer t ts d hd hk ih => simpa [closeGroup, hd, hk] using ih h
  | case6 opener outer t ts hopen hclose ih =>
    simpa [closeGroup, hopen, hclose] using ih h

theorem dropTree_fill (h : dropTree ts = .ok rest) : dropTree (w.fill ts) = .ok (w.fill rest) := by
  cases ts with
  | nil => cases h
  | cons t ts =>
    simp only [dropTree, Frame.fill_cons, Token.down_kind] at h ⊢
    split at h
    · cases h
    · exact closeGroup_fill h
    · cases h; rfl

theorem dropTreesUntil_fill {stop : Kind → Bool} (h : dropTreesUntil stop ts = .ok rest) :
    dropTreesUntil stop (w.fill ts) = .ok (w.fill rest) := by
  fun_induction dropTreesUntil stop ts with
  | case1 | case3 => cases h
  | case2 t ts hs =>
    cases h
    simp [dropTreesUntil, hs]
  | case4 t ts hs mid hd ih =>
    have hd' := dropTree_fill (w := w) hd
    rw [Frame.fill_cons] at hd' ⊢
    rw [dropTreesUntil, if_neg (by simpa using hs)]
    split
    · next hf => rw [hd'] at hf; cases hf
    · next hr =>
      rw [hd'] at hr
      cases hr
      exact ih h

theorem dropParameterRest_fill {depth : Nat} (h : dropParameterRest depth ts = .ok rest) :
    dropParameterRest depth (w.fill ts) = .ok (w.fill rest) := by
  fun_induction dropParameterRest depth ts with
  | case1 | case5 => cases h
  | case2 depth t ts hs =>
    cases h
    simp [dropParameterRest, hs]
  | case3 depth t ts hs hl ih =>
    rw [Frame.fill_cons, dropParameterRest, Token.down_kind, if_neg hs, if_pos hl]
    exact ih h
  | case4 depth t ts hs hl hg ih =>
    rw [Frame.fill_cons, dropParameterRest, Token.down_kind, if_neg hs, if_neg hl, if_pos hg]
    exact ih h
  | case6 depth t ts hs hl hg mid hd ih =>
    have hd' := dropTree_fill (w := w) hd
    rw [Frame.fill_cons] at hd' ⊢
    rw [dropParameterRest, Token.down_kind, if_neg hs, if_neg hl, if_neg hg]
    split
    · next hf => rw [hd'] at hf; cases hf
    · next hr =>
      rw [hd'] at hr
      cases hr
      exact ih h

end Grammar

end Ferrotype
