import Ferrotype.Grammar.Basic
import Ferrotype.Proofs.Grammar.Frame

/-!
# Rules in a longer file

A run of a rule is compared with a run of it in a frame, and the delimiters that it reads are
counted on the way. There is a lemma for each kind of step, and the rules of the grammar are
sequences of steps.
-/

namespace Ferrotype

variable {α β γ : Type}

/--
If `x` succeeds on `ts`, where no delimiter is taken for an operator, it takes the open ones from
`ds` to `es`. If it leaves what satisfies `Q`, then `x'` finds in the frame `w` what `f` makes of
the result, and leaves the same. A rule that `Q` lets stop at the end of the file, with other tokens
behind it, has read something.
-/
def Rule.Follows (x : Rule α) (x' : Rule β) (w : Frame) (Q : List Token → Prop) (f : α → β)
    (ts : List Token) (ds es : List Delim) : Prop :=
  Unmistakable ts → ∀ a rest, x ts = .ok (a, rest) →
    Reads ds es ts rest ∧ (w.behind ≠ [] → Q [] → rest.length < ts.length) ∧
      (Q rest → w.Sealed ts ∧ x' (w.fill ts) = .ok (f a, w.fill rest))

/-- On every list of tokens, what `x` reads is nested, and `x'` reads it wherever it is sealed. -/
def Rule.Local (x x' : Rule α) (w : Frame) (f : α → α) : Prop :=
  ∀ ts ds, x.Follows x' w w.Sealed f ts ds ds

/-- As `Local`, of a rule that ends as an item does: it looks at nothing that comes behind. -/
def Rule.Ends (x x' : Rule α) (w : Frame) (f : α → α) : Prop :=
  ∀ ts ds, x.Follows x' w w.Settled f ts ds ds

/-- A turn with another element. -/
def Turn.map (p : α → β) : Turn α → Turn β
  | .stop => .stop
  | .last a => .last (p a)
  | .more a => .more (p a)

namespace Rule

variable {w : Frame} {Q : List Token → Prop} {ts : List Token} {ds es fs : List Delim}
  {kind : Kind} {note : String}

namespace Follows

/-! ## Sequences -/

theorem absurd_sealed {p : Prop} (hb : w.behind ≠ []) (hs : w.Sealed []) : p := absurd hs.nil hb

theorem pure {a : α} {b : β} {f : α → β} (h : f a = b) :
    Follows (Pure.pure a) (Pure.pure b) w w.Sealed f ts ds ds := by
  intro _ a' rest hr
  obtain ⟨rfl, rfl⟩ := run_pure.1 hr
  exact ⟨.refl ds ts, absurd_sealed, fun hs => ⟨hs, h ▸ rfl⟩⟩

/-- What is left behind `x` satisfies `P`, since `f` goes on from there. -/
theorem bindTo {P : List Token → Prop} {x x' : Rule α} {p : α → α} {f f' : α → Rule β} {g : β → β}
    (hx : x.Follows x' w P p ts ds es)
    (hp : ∀ a rest b rest', f a rest = .ok (b, rest') → w.Sealed rest → P rest)
    (hf : ∀ a rest, x ts = .ok (a, rest) → (f a).Follows (f' (p a)) w Q g rest es fs) :
    (x >>= f).Follows (x' >>= f') w Q g ts ds fs := by
  intro hsp b rest h
  obtain ⟨a, mid, ha, hb⟩ := run_bind.1 h
  obtain ⟨hr, -, hx⟩ := hx hsp a mid ha
  obtain ⟨hr', hl, hf⟩ := hf a mid ha (hsp.of_suffix hr.suffix) b rest hb
  refine ⟨hr.trans hr',
    fun hw hq => Nat.lt_of_lt_of_le (hl hw hq) hr.suffix.length_le, fun hq => ?_⟩
  -- From the end to the front: what `f` leaves seals what it starts from.
  obtain ⟨hs, hf⟩ := hf hq
  obtain ⟨hs, hx⟩ := hx (hp a mid b rest hb hs)
  exact ⟨hs, (bind_ok hx f').trans hf⟩

theorem bindMap {x x' : Rule α} {p : α → α} {f f' : α → Rule β} {g : β → β}
    (hx : x.Follows x' w w.Sealed p ts ds es)
    (hf : ∀ a rest, (f a).Follows (f' (p a)) w Q g rest es fs) :
    (x >>= f).Follows (x' >>= f') w Q g ts ds fs :=
  hx.bindTo (fun _ _ _ _ _ hs => hs) fun a rest _ => hf a rest

theorem bind {x x' : Rule α} {f f' : α → Rule β} {g : β → β}
    (hx : x.Follows x' w w.Sealed id ts ds es)
    (hf : ∀ a rest, (f a).Follows (f' a) w Q g rest es fs) :
    (x >>= f).Follows (x' >>= f') w Q g ts ds fs := bindMap hx hf

/-- As `bind`, with what is known of the first step from its run. -/
theorem bindRun {x x' : Rule α} {f f' : α → Rule β} {g : β → β}
    (hx : x.Follows x' w w.Sealed id ts ds es)
    (hf : ∀ a rest, x ts = .ok (a, rest) → (f a).Follows (f' a) w Q g rest es fs) :
    (x >>= f).Follows (x' >>= f') w Q g ts ds fs := hx.bindTo (fun _ _ _ _ _ hs => hs) hf

/-- Behind the last step there is only a result. -/
theorem bindPure {x x' : Rule α} {p : α → α} {f f' : α → β} {g : β → β}
    (hx : x.Follows x' w Q p ts ds es) (hf : ∀ a, g (f a) = f' (p a)) :
    (x >>= fun a => Pure.pure (f a)).Follows (x' >>= fun a => Pure.pure (f' a)) w Q g ts ds es := by
  intro hsp b rest h
  obtain ⟨a, mid, ha, hb⟩ := run_bind.1 h
  obtain ⟨rfl, rfl⟩ := run_pure.1 hb
  obtain ⟨hr, hl, hx⟩ := hx hsp a mid ha
  refine ⟨hr, hl, fun hq => ?_⟩
  obtain ⟨hs, hx⟩ := hx hq
  exact ⟨hs, by rw [bind_ok hx, hf]; rfl⟩

/-- As `bindPure`, with a result in two steps. -/
theorem bindPure₂ {x x' : Rule α} {p : α → α} {f f' : α → γ} {h h' : γ → β} {g : β → β}
    (hx : x.Follows x' w Q p ts ds es) (hf : ∀ a, g (h (f a)) = h' (f' (p a))) :
    (x >>= fun a => Pure.pure (f a) >>= fun c => Pure.pure (h c)).Follows
      (x' >>= fun a => Pure.pure (f' a) >>= fun c => Pure.pure (h' c)) w Q g ts ds es :=
  hx.bindPure (f := fun a => h (f a)) hf

theorem discard {x x' : Rule α} {p : α → α} (hx : x.Follows x' w Q p ts ds es) :
    (Functor.discard x).Follows (Functor.discard x') w Q id ts ds es :=
  hx.bindPure fun _ => rfl

theorem refuse {what : Expectation} {x' : Rule α} {f : α → α} :
    (Rule.refuse what note).Follows x' w Q f ts ds es :=
  fun _ _ _ h => (run_refuse.1 h).elim

theorem throw {fault : GrammarFault} {x' : Rule α} {f : α → α} :
    (MonadExcept.throw fault : Rule α).Follows x' w Q f ts ds es :=
  fun _ _ _ h => (run_throw.1 h).elim

theorem mono {P : List Token → Prop} {x x' : Rule α} {p : α → α} (hx : x.Follows x' w P p ts ds es)
    (hp : ∀ rest, Q rest → P rest) : x.Follows x' w Q p ts ds es := by
  intro hsp a rest h
  obtain ⟨hr, hl, hx⟩ := hx hsp a rest h
  exact ⟨hr, fun hw hq => hl hw (hp [] hq), fun hq => hx (hp rest hq)⟩

/-- Steps in the frame that are others only where the list is not sealed. -/
theorem inSealed {x x' x'' : Rule α} {p : α → α} (h : w.Sealed ts → x' = x'')
    (hx : x.Follows x'' w Q p ts ds es) : x.Follows x' w Q p ts ds es := by
  intro hsp a rest ha
  obtain ⟨hr, hl, hx⟩ := hx hsp a rest ha
  exact ⟨hr, hl, fun hq => ⟨(hx hq).1, by rw [h (hx hq).1, (hx hq).2]⟩⟩

/-- Steps in the frame that are the same at least if the run succeeds. -/
theorem ofRun {x x' x'' : Rule α} {p : α → α}
    (h : Unmistakable ts → ∀ a rest, x ts = .ok (a, rest) → Q rest → x' = x'')
    (hx : x.Follows x'' w Q p ts ds es) : x.Follows x' w Q p ts ds es := by
  intro hsp a rest ha
  obtain ⟨hr, hl, hx⟩ := hx hsp a rest ha
  exact ⟨hr, hl, fun hq => ⟨(hx hq).1, by rw [h hsp a rest ha hq, (hx hq).2]⟩⟩

/-- A condition that comes to the same in the frame. -/
theorem iteSame {c c' : Prop} [Decidable c] [Decidable c'] {x x' y y' : Rule α} {f : α → α}
    (hc : w.Sealed ts → (c' ↔ c)) (hx : c → x.Follows x' w Q f ts ds es)
    (hy : ¬c → y.Follows y' w Q f ts ds es) :
    (if c then x else y).Follows (if c' then x' else y') w Q f ts ds es := by
  intro hsp a rest h
  split at h
  · next hp =>
    obtain ⟨hr, hl, hx⟩ := hx hp hsp a rest h
    exact ⟨hr, hl, fun hq => ⟨(hx hq).1, by rw [if_pos ((hc (hx hq).1).2 hp), (hx hq).2]⟩⟩
  · next hn =>
    obtain ⟨hr, hl, hy⟩ := hy hn hsp a rest h
    exact ⟨hr, hl, fun hq => ⟨(hy hq).1, by rw [if_neg (mt (hc (hy hq).1).1 hn), (hy hq).2]⟩⟩

theorem ite {c : Prop} [Decidable c] {x x' y y' : Rule α} {f : α → α}
    (hx : c → x.Follows x' w Q f ts ds es) (hy : ¬c → y.Follows y' w Q f ts ds es) :
    (if c then x else y).Follows (if c then x' else y') w Q f ts ds es :=
  iteSame (fun _ => .rfl) hx hy

/-- A step that may be left out. -/
theorem opt {c : Prop} [Decidable c] {x x' : Rule α} {y y' : Rule β} {f : β → β}
    (hx : c → x.Follows x' w w.Sealed id ts ds ds)
    (hy : ∀ rest, y.Follows y' w Q f rest ds es) :
    (if c then x >>= fun _ => y else y).Follows (if c then x' >>= fun _ => y' else y') w Q f ts
      ds es :=
  ite (fun hc => (hx hc).bind fun _ => hy) fun _ => hy ts

/-- Two steps that may be left out together. -/
theorem opt₂ {c : Prop} [Decidable c] {x x' : Rule α} {z z' : Rule γ} {y y' : Rule β} {f : β → β}
    (hx : c → (x >>= fun _ => z).Follows (x' >>= fun _ => z') w w.Sealed id ts ds ds)
    (hy : ∀ rest, y.Follows y' w Q f rest ds es) :
    (if c then x >>= fun _ => z >>= fun _ => y else y).Follows
      (if c then x' >>= fun _ => z' >>= fun _ => y' else y') w Q f ts ds es := by
  simp only [← bind_assoc]
  exact opt hx hy

/-- The steps `f` behind a branch, which each arm of it takes, are followed once. -/
theorem join {p : Prop} {f f' : γ → Rule β} {g : β → β}
    (hx : (∀ c rest, (f c).Follows (f' c) w Q g rest ds es) → p)
    (hf : ∀ c rest, (f c).Follows (f' c) w Q g rest ds es) : p := hx hf

/-! ## Looking ahead -/

/-- A look at the tokens that comes to the same in the frame. -/
theorem look {x : Rule γ} {l : List Token → γ} {f f' : γ → Rule β} {g : β → β}
    (hx : ∀ ts, x ts = .ok (l ts, ts)) (hl : w.Sealed ts → l (w.fill ts) = l ts)
    (hf : (f (l ts)).Follows (f' (l ts)) w Q g ts ds es) :
    (x >>= f).Follows (x >>= f') w Q g ts ds es := by
  intro hsp b rest h
  rw [bind_ok (hx ts)] at h
  obtain ⟨hr, hlt, hf⟩ := hf hsp b rest h
  refine ⟨hr, hlt, fun hq => ?_⟩
  obtain ⟨hs, hf⟩ := hf hq
  exact ⟨hs, by rw [bind_ok (hx _), hl hs, hf]⟩

theorem ahead {test : List Token → Bool} {f f' : Bool → Rule β} {g : β → β}
    (ht : w.Sealed ts → test (w.fill ts) = test ts)
    (hf : (f (test ts)).Follows (f' (test ts)) w Q g ts ds es) :
    (Rule.ahead test >>= f).Follows (Rule.ahead test >>= f') w Q g ts ds es :=
  look (fun _ => rfl) ht hf

theorem nextIs {p : Kind → Bool} {f f' : Bool → Rule β} {g : β → β}
    (hf : (f (ts.head?.any fun t => p t.kind)).Follows (f' (ts.head?.any fun t => p t.kind))
      w Q g ts ds es) :
    (Rule.nextIs p >>= f).Follows (Rule.nextIs p >>= f') w Q g ts ds es :=
  look (fun _ => run_nextIs.2 ⟨rfl, rfl⟩) (fun hs => hs.head_any p) hf

theorem isAt {f f' : Bool → Rule β} {g : β → β}
    (hf : (f (Grammar.headIs kind ts)).Follows (f' (Grammar.headIs kind ts)) w Q g ts ds es) :
    (Rule.isAt kind >>= f).Follows (Rule.isAt kind >>= f') w Q g ts ds es := nextIs hf

theorem head {f f' : Option Kind → Rule β} {g : β → β}
    (hf : (f (ts.head?.map Token.kind)).Follows (f' (ts.head?.map Token.kind)) w Q g ts ds es) :
    (Rule.kindAt 0 >>= f).Follows (Rule.kindAt 0 >>= f') w Q g ts ds es := by
  refine look (l := fun ts => ts.head?.map Token.kind) (fun ts => ?_) (fun hs => ?_) hf
  · rw [run_kindAt]
    cases ts <;> simp
  · rw [hs.head]
    cases ts <;> rfl

/-- The token behind the next one, unless the next one ends an item. -/
theorem second {f f' : Option Kind → Rule β} {g : β → β}
    (ht : ∀ t, ts.head? = some t → t.kind.endsItem = false)
    (hf : (f (ts[1]?.map Token.kind)).Follows (f' (ts[1]?.map Token.kind)) w Q g ts ds es) :
    (Rule.kindAt 1 >>= f).Follows (Rule.kindAt 1 >>= f') w Q g ts ds es := by
  refine look (l := fun ts => ts[1]?.map Token.kind) (fun _ => rfl) (fun hs => ?_) hf
  cases ts with
  | nil => rw [Frame.fill_nil, hs.nil]
  | cons t us =>
    have := (hs.behind_of_not_end (ht t rfl)).head
    simp only [Frame.fill_cons, List.getElem?_cons_succ, ← List.head?_eq_getElem?, this]
    cases us <;> rfl

/-- A look that does not matter. -/
theorem second_any {f f' : Option Kind → Rule β} {g : β → β}
    (hf : ∀ next next', (f next).Follows (f' next') w Q g ts ds es) :
    (Rule.kindAt 1 >>= f).Follows (Rule.kindAt 1 >>= f') w Q g ts ds es :=
  fun hsp b rest h => hf _ _ hsp b rest h

theorem nextText {f f' : String → Rule β} {g : β → β}
    (hf : ∀ text, (f text).Follows (f' text) w Q g ts ds es) :
    (Rule.nextText >>= f).Follows (Rule.nextText >>= f') w Q g ts ds es := by
  refine look (fun _ => rfl) (fun hs => ?_) (hf (ts.head?.elim "" Token.text))
  rw [hs.head]
  cases ts <;> rfl

/-! ## Reading -/

theorem advance {t : Token} (ht : t.kind.after ds = some es) :
    (Functor.discard Rule.advance).Follows (Functor.discard Rule.advance) w w.Sealed id (t :: ts)
      ds es := by
  intro _ u rest h
  cases h
  exact ⟨.token ht ts, absurd_sealed, fun hs => ⟨hs.of_suffix (List.suffix_cons t ts), rfl⟩⟩

theorem advanceThen {t : Token} {f f' : PUnit → Rule β} {g : β → β}
    (ht : t.kind.after ds = some es) (hf : (f ⟨⟩).Follows (f' ⟨⟩) w Q g ts es fs) :
    (Functor.discard Rule.advance >>= f).Follows (Functor.discard Rule.advance >>= f') w Q g
      (t :: ts) ds fs := by
  intro hsp b rest h
  obtain ⟨hr, hl, hf⟩ := hf (hsp.of_suffix (List.suffix_cons t ts)) b rest h
  exact ⟨(Reads.token ht ts).trans hr, fun hw hq => Nat.lt_succ_of_lt (hl hw hq),
    fun hq => ⟨(hf hq).1.of_suffix (List.suffix_cons t ts), (hf hq).2⟩⟩

theorem getThen {f f' : List Token → Rule β} {g : β → β}
    (hf : (f ts).Follows (f' (w.fill ts)) w Q g ts ds es) :
    (get >>= f).Follows (get >>= f') w Q g ts ds es := hf

/-- As `getThen`, where the steps behind are the same in the frame. -/
theorem getSame {f f' : List Token → Rule β} {g : β → β} (hl : w.Sealed ts → f' (w.fill ts) = f' ts)
    (hf : (f ts).Follows (f' ts) w Q g ts ds es) :
    (get >>= f).Follows (get >>= f') w Q g ts ds es := by
  intro hsp b rest h
  obtain ⟨hr, hlt, hf⟩ := hf hsp b rest h
  refine ⟨hr, hlt, fun hq => ⟨(hf hq).1, ?_⟩⟩
  change f' (w.fill ts) (w.fill ts) = _
  rw [hl (hf hq).1, (hf hq).2]

/-- What is set is what is left behind the tokens read. -/
theorem setThen {us us' : List Token} {f f' : PUnit → Rule β} {g : β → β}
    (hr : Unmistakable ts → Reads ds es ts us) (hu : us' = w.fill us)
    (hf : (f ⟨⟩).Follows (f' ⟨⟩) w Q g us es fs) :
    (set us >>= f).Follows (set us' >>= f') w Q g ts ds fs := by
  intro hsp b rest h
  have hr := hr hsp
  obtain ⟨hr', hl, hf⟩ := hf (hsp.of_suffix hr.suffix) b rest h
  refine ⟨hr.trans hr', fun hw hq => Nat.lt_of_lt_of_le (hl hw hq) hr.suffix.length_le,
    fun hq => ⟨(hf hq).1.of_suffix hr.suffix, ?_⟩⟩
  subst hu
  exact (hf hq).2

theorem modifyThen {u u' : List Token → List Token} {f f' : PUnit → Rule β} {g : β → β}
    (hr : Unmistakable ts → Reads ds es ts (u ts)) (hu : u' (w.fill ts) = w.fill (u ts))
    (hf : (f ⟨⟩).Follows (f' ⟨⟩) w Q g (u ts) es fs) :
    ((modify u : Rule PUnit) >>= f).Follows ((modify u' : Rule PUnit) >>= f') w Q g
      ts ds fs :=
  setThen hr hu hf

theorem expect (hk : kind.after ds = some es) :
    (Rule.expect kind note).Follows (Rule.expect kind note) w w.Sealed (Token.down w.above) ts
      ds es := by
  intro _ t rest h
  obtain ⟨rfl, rfl⟩ := run_expect.1 h
  exact ⟨.token hk rest, absurd_sealed, fun hs =>
    ⟨hs.of_suffix (List.suffix_cons t rest), run_expect.2 ⟨rfl, rfl⟩⟩⟩

/-- The last token of an item. -/
theorem expectEnd (hk : kind.after ds = some es) (he : kind.endsItem = true) :
    (Rule.expect kind note).Follows (Rule.expect kind note) w w.Settled (Token.down w.above) ts
      ds es := by
  intro _ t rest h
  obtain ⟨rfl, rfl⟩ := run_expect.1 h
  exact ⟨.token hk rest, fun _ _ => Nat.lt_succ_self _, fun hs =>
    ⟨hs.sealed_cons he, run_expect.2 ⟨rfl, rfl⟩⟩⟩

theorem accept (hk : kind.isDelim = false) :
    (Rule.accept kind).Follows (Rule.accept kind) w w.Sealed id ts ds ds := by
  intro _ b rest h
  rcases run_accept.1 h with ⟨rfl, t, rfl, rfl⟩ | ⟨rfl, rfl, hn⟩
  · exact ⟨.plain hk ds rest, absurd_sealed, fun hs =>
      ⟨hs.of_suffix (List.suffix_cons t rest), accept_eq_true rfl⟩⟩
  · exact ⟨.refl ds rest, absurd_sealed, fun hs =>
      ⟨hs, accept_eq_false ((hs.headIs _).trans hn)⟩⟩

/-- The two ways on from a token that may be there. -/
theorem acceptIte {x x' y y' : Rule β} {g : β → β} (hk : kind.after ds = some es)
    (hx : ∀ rest, x.Follows x' w Q g rest es fs) (hy : y.Follows y' w Q g ts ds fs) :
    (Rule.accept kind >>= fun b => if b = true then x else y).Follows
      (Rule.accept kind >>= fun b => if b = true then x' else y') w Q g ts ds fs := by
  intro hsp b rest h
  obtain ⟨c, mid, ha, hb⟩ := run_bind.1 h
  rcases run_accept.1 ha with ⟨rfl, t, rfl, rfl⟩ | ⟨rfl, rfl, hn⟩
  · obtain ⟨hr, hl, hx⟩ := hx mid (hsp.of_suffix (List.suffix_cons t mid)) b rest hb
    refine ⟨(Reads.token hk mid).trans hr, fun hw hq => Nat.lt_succ_of_lt (hl hw hq),
      fun hq => ?_⟩
    obtain ⟨hs, hx⟩ := hx hq
    have ht : Rule.accept t.kind (w.fill (t :: mid)) = .ok (true, w.fill mid) := accept_eq_true rfl
    exact ⟨hs.of_suffix (List.suffix_cons t mid), (bind_ok ht _).trans hx⟩
  · obtain ⟨hr, hl, hy⟩ := hy hsp b rest hb
    refine ⟨hr, hl, fun hq => ?_⟩
    obtain ⟨hs, hy⟩ := hy hq
    refine ⟨hs, ?_⟩
    rw [bind_ok (accept_eq_false ((hs.headIs _).trans hn))]
    exact hy

/-! ## Reading over -/

theorem dropping {drop : List Token → Except GrammarFault (List Token)}
    (hr : ∀ ts rest, drop ts = .ok rest → Reads ds ds ts rest)
    (hf : ∀ ts rest, drop ts = .ok rest → drop (w.fill ts) = .ok (w.fill rest)) :
    (Rule.dropping drop).Follows (Rule.dropping drop) w w.Sealed id ts ds ds := by
  intro _ u rest h
  have h := run_dropping.1 h
  exact ⟨hr _ _ h, absurd_sealed, fun hs =>
    ⟨hs.of_suffix (hr _ _ h).suffix, run_dropping.2 (hf _ _ h)⟩⟩

theorem skipTree : Rule.skipTree.Follows Rule.skipTree w w.Sealed id ts ds ds :=
  dropping (fun _ _ => Grammar.dropTree_reads) fun _ _ => Grammar.dropTree_fill

theorem skipTo {stop : Kind → Bool} :
    (Rule.skipTo stop).Follows (Rule.skipTo stop) w w.Sealed id ts ds ds :=
  dropping (fun _ _ => Grammar.dropTreesUntil_reads) fun _ _ => Grammar.dropTreesUntil_fill

/-! ## Texts -/

theorem take_fill {rest : List Token} (h : rest <:+ ts) :
    (w.fill ts).take ((w.fill ts).length - (w.fill rest).length) =
      (ts.take (ts.length - rest.length)).map (Token.down w.above) := by
  obtain ⟨read, rfl⟩ := h
  simp [Frame.fill]

theorem withText {x x' : Rule α} (hx : x.Follows x' w w.Sealed id ts ds es) :
    (Rule.withText x).Follows (Rule.withText x') w w.Sealed id ts ds es := by
  rintro hsp ⟨a, text⟩ rest h
  obtain ⟨ha, rfl⟩ := run_withText.1 h
  obtain ⟨hr, hl, hx⟩ := hx hsp a rest ha
  refine ⟨hr, hl, fun hs => ?_⟩
  obtain ⟨hs, hx⟩ := hx hs
  refine ⟨hs, run_withText.2 ⟨hx, ?_⟩⟩
  rw [take_fill hr.suffix]
  simp [Rule.textOf, Function.comp_def]

end Follows

/-! ## Repetition -/

theorem Follows.many {turn turn' : Rule (Turn α)} {p : α → α}
    (ht : ∀ ts, turn.Follows turn' w w.Sealed (Turn.map p) ts ds ds) :
    (Rule.many turn).Follows (Rule.many turn') w w.Sealed (List.map p) ts ds ds := by
  intro hsp as rest h
  refine many_induction (fun ts as rest => Unmistakable ts → Reads ds ds ts rest ∧
    (w.behind ≠ [] → w.Sealed [] → rest.length < ts.length) ∧
    (w.Sealed rest → w.Sealed ts ∧ Rule.many turn' (w.fill ts) = .ok (as.map p, w.fill rest)))
    ?stop ?last ?more h hsp
  case stop =>
    intro ts rest h hsp
    obtain ⟨hr, hl, hx⟩ := ht ts hsp _ _ h
    exact ⟨hr, hl, fun hs => ⟨(hx hs).1, many_stop (hx hs).2⟩⟩
  case last =>
    intro ts a rest h hsp
    obtain ⟨hr, hl, hx⟩ := ht ts hsp _ _ h
    exact ⟨hr, hl, fun hs => ⟨(hx hs).1, many_last (hx hs).2⟩⟩
  case more =>
    intro ts a mid as rest h hlt _ ih hsp
    obtain ⟨hr, -, hx⟩ := ht ts hsp _ _ h
    obtain ⟨hr', -, ih⟩ := ih (hsp.of_suffix hr.suffix)
    refine ⟨hr.trans hr', absurd_sealed, fun hs => ?_⟩
    obtain ⟨hs, ih⟩ := ih hs
    exact ⟨(hx hs).1, many_more (hx hs).2 (Frame.length_fill_lt.2 hlt) ih⟩

theorem Turn.map_id : (Turn.map id : Turn α → Turn α) = id := by
  funext t
  cases t <;> rfl

theorem Ends.local {x x' : Rule α} {p : α → α} (h : x.Ends x' w p) : x.Local x' w p :=
  fun ts ds => (h ts ds).mono fun _ => .inr

namespace Local

theorem many {turn turn' : Rule (Turn α)} (ht : turn.Local turn' w id) :
    (Rule.many turn).Local (Rule.many turn') w id := fun ts ds => by
  rw [← List.map_id_fun]
  exact Follows.many fun ts => by rw [Turn.map_id]; exact ht ts ds

theorem commaListMap {element element' : Rule α} {p : α → α} {closer : Kind}
    (he : element.Local element' w p) :
    (Rule.commaList closer element).Local (Rule.commaList closer element') w (List.map p) := by
  intro ts ds
  refine Follows.many fun ts => .isAt (.ite (fun _ => .pure rfl) fun _ => ?_)
  refine .bindMap (he ts ds) fun a ts => ?_
  exact .acceptIte rfl (fun _ => .pure rfl) (.pure rfl)

theorem commaList {element element' : Rule α} {closer : Kind} (he : element.Local element' w id) :
    (Rule.commaList closer element).Local (Rule.commaList closer element') w id := by
  rw [← List.map_id_fun]
  exact commaListMap he

theorem strictCommaList {element element' : Rule α} {closer : Kind} {fault : Expectation}
    (he : element.Local element' w id) :
    (Rule.strictCommaList closer fault element).Local (Rule.strictCommaList closer fault element')
      w id := by
  refine many fun ts ds => .isAt (.ite (fun _ => .pure rfl) fun _ => ?_)
  refine .bind (he ts ds) fun a ts => ?_
  refine .acceptIte rfl (fun _ => .pure rfl) ?_
  exact .isAt (.ite (fun _ => .pure rfl) fun _ => .refuse)

theorem moreElements {element element' : Rule α} {closer : Kind} (he : element.Local element' w id) :
    (Grammar.moreElements closer element).Local (Grammar.moreElements closer element') w id := by
  refine many fun ts ds => .acceptIte rfl (fun ts => ?_) (.pure rfl)
  refine .isAt (.ite (fun _ => .pure rfl) fun _ => ?_)
  exact .bind (he ts ds) fun _ _ => .pure rfl

theorem parenOrTuple {element element' : Rule α} {paren : α → α} {tuple : List α → α}
    (he : element.Local element' w id) :
    (Grammar.parenOrTuple element paren tuple).Local (Grammar.parenOrTuple element' paren tuple)
      w id := by
  intro ts ds
  refine .bind (.discard (.expect rfl)) fun _ ts => ?_
  refine .acceptIte (Kind.after_closer _ _) (fun _ => .pure rfl) ?_
  refine .bind (he ts _) fun first ts => ?_
  refine .acceptIte (Kind.after_closer _ _) (fun _ => .pure rfl) ?_
  refine .bind (moreElements he ts _) fun more ts => ?_
  exact .bind (.discard (.expect (Kind.after_closer _ _))) fun _ _ => .pure rfl

theorem manyMap {turn turn' : Rule (Turn α)} {p : α → α} (ht : turn.Local turn' w (Turn.map p)) :
    (Rule.many turn).Local (Rule.many turn') w (List.map p) :=
  fun _ ds => Follows.many fun ts => ht ts ds

end Local

end Rule

end Ferrotype
