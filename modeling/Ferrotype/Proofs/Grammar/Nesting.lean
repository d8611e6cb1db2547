import Ferrotype.Proofs.Grammar.Run

/-!
# Nested delimiters

A list of tokens is balanced if each closer matches the innermost opener that is still open, and
none is left open.
-/

namespace Ferrotype

/-! ## Balanced lists -/

/-- The delimiters that are open behind a token, the innermost first, if `ds` are open before. -/
def Kind.after (ds : List Delim) : Kind → Option (List Delim)
  | .opener d => some (d :: ds)
  | .closer d => if ds.head? = some d then some ds.tail else none
  | _ => some ds

def openAfter (ds : List Delim) (ts : List Token) : Option (List Delim) :=
  ts.foldlM (fun ds t => t.kind.after ds) ds

/-- Each closer matches the innermost open delimiter, and none is left open. -/
def Balanced (ts : List Token) : Prop := openAfter [] ts = some []

instance (ts : List Token) : Decidable (Balanced ts) :=
  inferInstanceAs (Decidable (openAfter [] ts = some []))

/-- The text of a delimiter is its character. -/
def Kind.Spelled (kind : Kind) (text : String) : Prop :=
  match kind with
  | .opener d => text = String.singleton d.openChar
  | .closer d => text = String.singleton d.closeChar
  | _ => True

instance : (kind : Kind) → (text : String) → Decidable (kind.Spelled text)
  | .opener d, text => inferInstanceAs (Decidable (text = String.singleton d.openChar))
  | .closer d, text => inferInstanceAs (Decidable (text = String.singleton d.closeChar))
  | .keyword _, _ | .punct _, _ | .underscore, _ | .int, _ | .float, _ | .string, _
  | .byteString, _ | .char, _ | .byte, _ | .lifetime, _ | .identifier, _ | .doc _, _ =>
    .isTrue trivial

/-- Each delimiter of a list is spelled as its character. -/
def Spelled (ts : List Token) : Prop := ∀ t ∈ ts, t.kind.Spelled t.text

instance (ts : List Token) : Decidable (Spelled ts) :=
  inferInstanceAs (Decidable (∀ t ∈ ts, t.kind.Spelled t.text))

theorem openAfter_cons (ds : List Delim) (t : Token) (ts : List Token) :
    openAfter ds (t :: ts) = (t.kind.after ds).bind fun ds => openAfter ds ts := rfl

theorem openAfter_append (ds : List Delim) (ts us : List Token) :
    openAfter ds (ts ++ us) = (openAfter ds ts).bind fun ds => openAfter ds us :=
  List.foldlM_append

def Kind.isDelim : Kind → Bool
  | .opener _ | .closer _ => true
  | _ => false

/-- No delimiter has the text of a binary operator, which is all that an operator is told by. -/
def Unmistakable (ts : List Token) : Prop :=
  ∀ t ∈ ts, t.kind.isDelim = true → BinaryOp.ofText? t.text = none

instance (ts : List Token) : Decidable (Unmistakable ts) :=
  inferInstanceAs (Decidable (∀ t ∈ ts, t.kind.isDelim = true → BinaryOp.ofText? t.text = none))

theorem Unmistakable.of_suffix {ts rest : List Token} (hs : Unmistakable ts) (h : rest <:+ ts) :
    Unmistakable rest := fun t ht => hs t (h.subset ht)

/-- No delimiter is written as an operator is. -/
theorem ofText?_delim (d : Delim) :
    BinaryOp.ofText? (String.singleton d.openChar) = none ∧
      BinaryOp.ofText? (String.singleton d.closeChar) = none := by
  cases d <;> decide

/-- The character of a delimiter is no operator. -/
theorem Spelled.unmistakable {ts : List Token} (hs : Spelled ts) : Unmistakable ts := by
  intro t ht hd
  have hs : t.kind.Spelled t.text := hs t ht
  unfold Kind.Spelled at hs
  split at hs
  · next d _ => rw [hs, (ofText?_delim d).1]
  · next d _ => rw [hs, (ofText?_delim d).2]
  · next hno hnc =>
    unfold Kind.isDelim at hd
    split at hd
    · next d hk => exact absurd hk (hno d)
    · next d hk => exact absurd hk (hnc d)
    · cases hd

theorem Kind.after_of_not_delim {kind : Kind} (h : kind.isDelim = false) (ds : List Delim) :
    kind.after ds = some ds := by
  cases kind <;> simp_all [Kind.after, Kind.isDelim]

theorem Kind.after_closer (d : Delim) (ds : List Delim) :
    (Kind.closer d).after (d :: ds) = some ds := by
  simp [Kind.after]

/-! ## What is read -/

/-- What stands in `ts` before `rest` takes the open delimiters from `ds` to `es`. -/
def Reads (ds es : List Delim) (ts rest : List Token) : Prop :=
  ∃ read, ts = read ++ rest ∧ openAfter ds read = some es

namespace Reads

variable {ds es fs : List Delim} {ts mid rest : List Token} {t : Token}

theorem refl (ds : List Delim) (ts : List Token) : Reads ds ds ts ts := ⟨[], rfl, rfl⟩

theorem trans (h : Reads ds es ts mid) (h' : Reads es fs mid rest) : Reads ds fs ts rest := by
  obtain ⟨read, rfl, hr⟩ := h
  obtain ⟨read', rfl, hr'⟩ := h'
  refine ⟨read ++ read', by simp, ?_⟩
  rw [openAfter_append, hr]
  exact hr'

theorem token (h : t.kind.after ds = some es) (ts : List Token) : Reads ds es (t :: ts) ts :=
  ⟨[t], rfl, by rw [openAfter_cons, h]; rfl⟩

theorem plain (h : t.kind.isDelim = false) (ds : List Delim) (ts : List Token) :
    Reads ds ds (t :: ts) ts :=
  .token (Kind.after_of_not_delim h ds) ts

theorem suffix (h : Reads ds es ts rest) : rest <:+ ts := by
  obtain ⟨read, rfl, -⟩ := h
  exact List.suffix_append read rest

theorem balanced (h : Reads [] [] ts []) : Balanced ts := by
  obtain ⟨read, rfl, hr⟩ := h
  simpa [Balanced] using hr

end Reads

/-! ## Token trees -/

namespace Grammar

variable {ds : List Delim} {ts rest : List Token}

theorem isDelim_eq_false {kind : Kind} (ho : ∀ d, kind ≠ .opener d) (hc : ∀ d, kind ≠ .closer d) :
    kind.isDelim = false := by
  cases kind <;> simp_all [Kind.isDelim]

/-- The delimiters of `openers` are closed, and those outside of them stay. -/
theorem closeGroup_reads {openers : List Token} {es : List Delim}
    (ho : openers.map Token.kind = es.map .opener) (h : closeGroup openers ts = .ok rest) :
    Reads (es ++ ds) ds ts rest := by
  fun_induction closeGroup openers ts generalizing es with
  | case1 ts =>
    cases h
    obtain rfl : es = [] := by simpa using ho
    exact .refl ds rest
  | case2 => cases h
  | case3 opener outer t ts d hd ih =>
    have ht : t.kind.after (es ++ ds) = some (d :: es ++ ds) := by rw [hd]; rfl
    exact (Reads.token ht _).trans (ih (by simp_all) h)
  | case4 opener outer t ts d hd hk ih =>
    obtain ⟨e, es, rfl⟩ : ∃ e fs, es = e :: fs := by cases es <;> simp_all
    simp only [List.map_cons, List.cons.injEq, hk, Kind.opener.injEq] at ho
    obtain ⟨rfl, ho⟩ := ho
    have ht : t.kind.after (d :: es ++ ds) = some (es ++ ds) := by
      rw [hd]
      exact Kind.after_closer d _
    exact (Reads.token ht _).trans (ih ho h)
  | case5 => cases h
  | case6 opener outer t ts hopen hclose ih =>
    exact (Reads.plain (isDelim_eq_false hopen hclose) _ _).trans (ih ho h)

theorem dropTree_reads (h : dropTree ts = .ok rest) : Reads ds ds ts rest := by
  unfold dropTree at h
  split at h
  · cases h
  · next t ts =>
    split at h
    · cases h
    · next d hd =>
      have ht : t.kind.after ds = some (d :: ds) := by rw [hd]; rfl
      have hk : [t].map Token.kind = [d].map .opener := congrArg (· :: []) hd
      have hc : Reads (d :: ds) ds ts rest := closeGroup_reads hk h
      exact (Reads.token ht _).trans hc
    · next hc ho =>
      cases h
      exact .plain (isDelim_eq_false ho hc) _ _

theorem dropTreesUntil_reads {stop : Kind → Bool} (h : dropTreesUntil stop ts = .ok rest) :
    Reads ds ds ts rest := by
  fun_induction dropTreesUntil stop ts with
  | case1 | case3 => cases h
  | case2 => cases h; exact .refl _ _
  | case4 t ts _ mid hd ih => exact (dropTree_reads hd).trans (ih h)

/-- Reading over trees ends before a token of the class. -/
theorem dropTreesUntil_stop {stop : Kind → Bool} (h : dropTreesUntil stop ts = .ok rest) :
    ∃ t us, rest = t :: us ∧ stop t.kind = true := by
  fun_induction dropTreesUntil stop ts with
  | case1 | case3 => cases h
  | case2 t ts hs => cases h; exact ⟨t, ts, rfl, hs⟩
  | case4 t ts _ mid hd ih => exact ih h

theorem dropParameterRest_reads {depth : Nat} (h : dropParameterRest depth ts = .ok rest) :
    Reads ds ds ts rest := by
  fun_induction dropParameterRest depth ts with
  | case1 | case5 => cases h
  | case2 => cases h; exact .refl _ _
  | case3 depth t ts _ hk ih | case4 depth t ts _ _ hk ih =>
    exact (Reads.plain (by simp [hk, Kind.isDelim]) _ _).trans (ih h)
  | case6 depth t ts _ _ _ mid hd ih => exact (dropTree_reads hd).trans (ih h)

end Grammar

end Ferrotype
