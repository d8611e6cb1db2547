import Ferrotype.Grammar.Item
import Ferrotype.Proofs.Grammar.Nesting

/-!
# Rules that come to an end

A rule that halts ends in a fault of the tokens or behind what it reads. It never goes on for ever:
each turn of a repetition reads a token, and so does each step down in a recursion. There is a
lemma for each kind of step, and the rules of the grammar are sequences of steps.
-/

namespace Ferrotype

variable {α β γ δ : Type}

/--
The run of `x` on `ts` comes to an end: with a fault of the tokens, or with a result and what is
left of `ts`. It is less than `ts` for the results that only come of reading a token.
-/
def Rule.Halts (x : Rule α) (reads : α → Bool) (ts : List Token) : Prop :=
  x ts ≠ .error .endless ∧
    ∀ a rest, x ts = .ok (a, rest) → rest <:+ ts ∧ (reads a = true → rest.length < ts.length)

/-- A turn that another one follows has to read a token. -/
def Turn.reads : Turn α → Bool
  | .more _ => true
  | _ => false

namespace Rule

theorem bind_error {x : Rule α} {fault : GrammarFault} {ts : List Token} (h : x ts = .error fault)
    (f : α → Rule β) : (x >>= f) ts = .error fault := by
  change StateT.bind x f ts = _
  simp only [StateT.bind, h, bind, Except.bind]

namespace Halts

variable {x : Rule α} {f : α → Rule β} {k : α → Bool} {m : β → Bool} {b : Bool} {ts us : List Token}
  {kind : Kind}

/-- Only the run on `ts` counts. -/
theorem congr {y : Rule α} (hy : y.Halts k ts) (h : x ts = y ts) : x.Halts k ts := by
  unfold Halts
  rw [h]
  exact hy

/-! ## Sequences -/

theorem pure {a : α} (h : k a = false) : Halts (Pure.pure a) k ts := by
  refine ⟨nofun, fun c rest hr => ?_⟩
  obtain ⟨rfl, rfl⟩ := run_pure.1 hr
  exact ⟨List.suffix_refl ts, fun hk => by rw [h] at hk; cases hk⟩

theorem throw {fault : GrammarFault} (h : fault ≠ .endless) :
    (MonadExcept.throw fault : Rule α).Halts k ts :=
  ⟨fun hf => h (Except.error.inj hf), fun _ _ hr => (run_throw.1 hr).elim⟩

theorem refuse {what : Expectation} {note : String} : (Rule.refuse what note).Halts k ts :=
  ⟨nofun, fun _ _ hr => (run_refuse.1 hr).elim⟩

/-- A first step of which the run is known. -/
theorem bindRun (hx : x.Halts k ts)
    (hf : ∀ a rest, x ts = .ok (a, rest) → (f a).Halts m rest) : (x >>= f).Halts m ts := by
  constructor
  · intro he
    cases h : x ts with
    | error fault =>
      rw [bind_error h] at he
      exact hx.1 (by rw [h, Except.error.inj he])
    | ok r =>
      rw [bind_ok h] at he
      exact (hf r.1 r.2 h).1 he
  · intro c rest h
    obtain ⟨a, mid, ha, hc⟩ := run_bind.1 h
    obtain ⟨hs, -⟩ := hx.2 a mid ha
    obtain ⟨hs', hl⟩ := (hf a mid ha).2 c rest hc
    exact ⟨hs'.trans hs, fun hm => Nat.lt_of_lt_of_le (hl hm) hs.length_le⟩

theorem bind (hx : x.Halts k ts)
    (hf : ∀ a rest, rest.length ≤ ts.length → (f a).Halts m rest) : (x >>= f).Halts m ts :=
  hx.bindRun fun a rest h => hf a rest (hx.2 a rest h).1.length_le

/-- It does not matter whether a token is read. -/
theorem any (hx : x.Halts k ts) : x.Halts (fun _ => false) ts :=
  ⟨hx.1, fun a rest hr => ⟨(hx.2 a rest hr).1, nofun⟩⟩

theorem mono {l : α → Bool} (hx : x.Halts (fun _ => true) ts) : x.Halts l ts :=
  ⟨hx.1, fun a rest hr => ⟨(hx.2 a rest hr).1, fun _ => (hx.2 a rest hr).2 rfl⟩⟩

/-- The first step reads a token, so the second one need not. -/
theorem read (hx : x.Halts (fun _ => true) ts)
    (hf : ∀ a rest, rest.length < ts.length → (f a).Halts (fun _ => false) rest) :
    (x >>= f).Halts m ts := by
  have hf : ∀ a rest, x ts = .ok (a, rest) → (f a).Halts (fun _ => false) rest :=
    fun a rest h => hf a rest ((hx.2 a rest h).2 rfl)
  have hb := hx.bindRun hf
  refine ⟨hb.1, fun c rest h => ⟨(hb.2 c rest h).1, fun _ => ?_⟩⟩
  obtain ⟨a, mid, ha, hc⟩ := run_bind.1 h
  have hs := ((hf a mid ha).2 c rest hc).1
  exact Nat.lt_of_le_of_lt hs.length_le ((hx.2 a mid ha).2 rfl)

theorem discard (hx : x.Halts (fun _ => b) ts) : (Functor.discard x).Halts (fun _ => b) ts := by
  cases b with
  | true => exact .read hx fun _ _ _ => .pure rfl
  | false => exact .bind hx fun _ _ _ => .pure rfl

theorem ite {c : Prop} [Decidable c] {x y : Rule α} (hx : c → x.Halts k ts)
    (hy : ¬c → y.Halts k ts) : (if c then x else y).Halts k ts := by
  split
  · next h => exact hx h
  · next h => exact hy h

/-- A step that may be left out. -/
theorem opt {c : Prop} [Decidable c] {z : Rule γ} {y : Rule β} {l : γ → Bool}
    (hz : c → z.Halts l ts) (hy : ∀ rest, rest.length ≤ ts.length → y.Halts m rest) :
    (if c then z >>= fun _ => y else y).Halts m ts :=
  ite (fun hc => .bind (hz hc) fun _ => hy) fun _ => hy ts (Nat.le_refl _)

/-- Two steps that may be left out together. -/
theorem opt₂ {c : Prop} [Decidable c] {z : Rule γ} {z' : Rule δ} {y : Rule β} {l : δ → Bool}
    (hz : c → (z >>= fun _ => z').Halts l ts)
    (hy : ∀ rest, rest.length ≤ ts.length → y.Halts m rest) :
    (if c then z >>= fun _ => z' >>= fun _ => y else y).Halts m ts := by
  simp only [← bind_assoc]
  exact opt hz hy

/-- The steps `f` behind a branch, which each arm of it takes, are looked at once. -/
theorem join {p : Prop} {f : γ → Rule β}
    (hx : (∀ c rest, rest.length ≤ ts.length → (f c).Halts m rest) → p)
    (hf : ∀ c rest, rest.length ≤ ts.length → (f c).Halts m rest) : p := hx hf

/-- An arm that reads nothing. -/
theorem pureThen {a : α} (hf : ∀ a rest, rest.length ≤ ts.length → (f a).Halts m rest) :
    (Pure.pure a >>= f).Halts m ts := hf a ts (Nat.le_refl _)

/-! ## Looking ahead -/

theorem look {a : α} (hx : x ts = .ok (a, ts)) (hf : (f a).Halts m ts) : (x >>= f).Halts m ts := by
  unfold Halts
  rwa [bind_ok hx]

theorem get {f : List Token → Rule β} (hf : (f ts).Halts m ts) :
    (MonadState.get >>= f).Halts m ts := look rfl hf

theorem kindAt {i : Nat} {f : Option Kind → Rule β} (hf : (f (ts[i]?.map Token.kind)).Halts m ts) :
    (Rule.kindAt i >>= f).Halts m ts := look rfl hf

theorem ahead {test : List Token → Bool} {f : Bool → Rule β} (hf : (f (test ts)).Halts m ts) :
    (Rule.ahead test >>= f).Halts m ts := look rfl hf

theorem nextIs {p : Kind → Bool} {f : Bool → Rule β}
    (hf : (f (ts.head?.any fun t => p t.kind)).Halts m ts) : (Rule.nextIs p >>= f).Halts m ts :=
  look (run_nextIs.2 ⟨rfl, rfl⟩) hf

theorem isAt {f : Bool → Rule β} (hf : (f (Grammar.headIs kind ts)).Halts m ts) :
    (Rule.isAt kind >>= f).Halts m ts := nextIs hf

theorem nextText {f : String → Rule β} (hf : ∀ text, (f text).Halts m ts) :
    (Rule.nextText >>= f).Halts m ts := look rfl (hf _)

theorem nextLine {f : Nat → Rule β} (hf : ∀ line, (f line).Halts m ts) :
    (Grammar.nextLine >>= f).Halts m ts := look rfl (hf _)

/-! ## Reading -/

/-- Steps behind one that reads a token. -/
theorem behind {t : Token} {a : α} (hx : x (t :: us) = .ok (a, us))
    (hf : (f a).Halts (fun _ => false) us) : (x >>= f).Halts m (t :: us) := by
  unfold Halts
  rw [bind_ok hx]
  refine ⟨hf.1, fun c rest hr => ?_⟩
  have hs := (hf.2 c rest hr).1
  exact ⟨hs.trans (List.suffix_cons t us), fun _ => Nat.lt_succ_of_le hs.length_le⟩

/-- What is set is left behind tokens that are read. -/
theorem set {us : List Token} {f : PUnit → Rule β} (hs : us <:+ ts) (hf : (f ⟨⟩).Halts m us) :
    (MonadStateOf.set us >>= f).Halts m ts := by
  refine ⟨hf.1, fun c rest hr => ?_⟩
  obtain ⟨hs', hl⟩ := hf.2 c rest hr
  exact ⟨hs'.trans hs, fun hm => Nat.lt_of_lt_of_le (hl hm) hs.length_le⟩

/-- As `set`, where there are such tokens. -/
theorem setRead {us : List Token} {f : PUnit → Rule β} (hs : us <:+ ts)
    (hl : us.length < ts.length) (hf : (f ⟨⟩).Halts (fun _ => false) us) :
    (MonadStateOf.set us >>= f).Halts m ts := by
  have hx := set hs hf
  refine ⟨hx.1, fun c rest hr => ⟨(hx.2 c rest hr).1, fun _ => ?_⟩⟩
  exact Nat.lt_of_le_of_lt (hf.2 c rest hr).1.length_le hl

theorem drop {k : Nat} : (modify (List.drop k) : Rule PUnit).Halts (fun _ => false) ts := by
  refine ⟨nofun, fun _ rest hr => ?_⟩
  obtain rfl := run_modify.1 hr
  exact ⟨List.drop_suffix k ts, nofun⟩

theorem advance : Rule.advance.Halts (fun _ => false) ts := by
  refine ⟨fun he => ?_, fun t rest hr => ?_⟩
  · cases ts <;> cases he
  · obtain ⟨-, rfl⟩ := run_advance.1 hr
    exact ⟨List.tail_suffix ts, nofun⟩

/-- There is a token to read. -/
theorem advance_of_ne (h : ts ≠ []) : Rule.advance.Halts (fun _ => true) ts := by
  refine ⟨advance.1, fun t rest hr => ⟨(advance.2 t rest hr).1, fun _ => ?_⟩⟩
  obtain ⟨-, rfl⟩ := run_advance.1 hr
  have := List.length_pos_iff.2 h
  rw [List.length_tail]
  omega

/-- There is a token to read, of which something is known. -/
theorem advance_of_any {p : Token → Bool} (h : ts.head?.any p = true) :
    Rule.advance.Halts (fun _ => true) ts :=
  advance_of_ne (by rintro rfl; cases h)

theorem advance_of_kind {i : Nat} (h : ts[i]?.map Token.kind = some kind) :
    Rule.advance.Halts (fun _ => true) ts :=
  advance_of_ne (by rintro rfl; cases h)

theorem expect {note : String} : (Rule.expect kind note).Halts (fun _ => true) ts := by
  refine ⟨fun he => ?_, fun t rest hr => ?_⟩
  · cases ts with
    | nil => cases he
    | cons t ts =>
      by_cases hk : t.kind = kind
      · rw [run_expect.2 ⟨rfl, hk⟩] at he
        cases he
      · change (if t.kind = kind then _ else MonadExcept.throw _ : Rule Token) (t :: ts) = _ at he
        rw [if_neg hk] at he
        cases he
  · obtain ⟨rfl, -⟩ := run_expect.1 hr
    exact ⟨List.suffix_cons t rest, fun _ => Nat.lt_succ_self _⟩

theorem expectName : Rule.expectName.Halts (fun _ => true) ts :=
  .read expect fun _ _ _ => .pure rfl

theorem accept : (Rule.accept kind).Halts (fun _ => false) ts :=
  isAt (ite (fun _ => .bind (.discard advance) fun _ _ _ => .pure rfl) fun _ => .pure rfl)

/-- The two ways on from a token that may be there. -/
theorem acceptIte {x y : Rule β}
    (hx : ∀ rest, rest.length < ts.length → x.Halts (fun _ => false) rest) (hy : y.Halts m ts) :
    (Rule.accept kind >>= fun b => if b = true then x else y).Halts m ts := by
  cases hk : Grammar.headIs kind ts with
  | false => exact look (accept_eq_false hk) hy
  | true =>
    cases ts with
    | nil => cases hk
    | cons t us => exact behind (accept_eq_true (beq_iff_eq.1 hk)) (hx us (Nat.lt_succ_self _))

/-! ## Reading over -/

theorem dropping {drop : List Token → Except GrammarFault (List Token)}
    (he : drop ts ≠ .error .endless)
    (hr : ∀ rest, drop ts = .ok rest → rest <:+ ts ∧ (b = true → rest.length < ts.length)) :
    (Rule.dropping drop).Halts (fun _ => b) ts := by
  refine ⟨fun h => he ?_, fun _ rest h => hr rest (run_dropping.1 h)⟩
  cases hd : drop ts with
  | error fault =>
    have hl : (liftM (drop ts) : Rule (List Token)) ts = .error fault := by
      rw [hd]
      rfl
    have hf : (Rule.dropping drop) ts = .error fault := bind_error hl _
    rw [hf] at h
    rw [Except.error.inj h]
  | ok rest =>
    have hk : Rule.dropping drop ts = .ok ((), rest) := run_dropping.2 hd
    rw [hk] at h
    cases h

theorem closeGroup_ne (openers ts : List Token) :
    Grammar.closeGroup openers ts ≠ .error .endless := by
  fun_induction Grammar.closeGroup openers ts with
  | case1 | case2 | case5 => rintro ⟨⟩
  | case3 _ _ _ _ _ _ ih | case4 _ _ _ _ _ _ _ ih | case6 _ _ _ _ _ _ ih => exact ih

theorem dropTree_ne (ts : List Token) : Grammar.dropTree ts ≠ .error .endless := by
  unfold Grammar.dropTree
  split
  · rintro ⟨⟩
  · split
    · rintro ⟨⟩
    · exact closeGroup_ne _ _
    · rintro ⟨⟩

theorem dropTreesUntil_ne (stop : Kind → Bool) (ts : List Token) :
    Grammar.dropTreesUntil stop ts ≠ .error .endless := by
  fun_induction Grammar.dropTreesUntil stop ts with
  | case1 | case2 => rintro ⟨⟩
  | case3 t ts _ fault hd =>
    rintro ⟨⟩
    exact dropTree_ne _ hd
  | case4 _ _ _ _ _ ih => exact ih

theorem dropParameterRest_ne (depth : Nat) (ts : List Token) :
    Grammar.dropParameterRest depth ts ≠ .error .endless := by
  fun_induction Grammar.dropParameterRest depth ts with
  | case1 | case2 => rintro ⟨⟩
  | case3 _ _ _ _ _ ih | case4 _ _ _ _ _ _ ih | case6 _ _ _ _ _ _ _ _ ih => exact ih
  | case5 _ t ts _ _ _ fault hd =>
    rintro ⟨⟩
    exact dropTree_ne _ hd

theorem skipTree : Rule.skipTree.Halts (fun _ => true) ts := by
  refine dropping (dropTree_ne ts) fun rest h => ?_
  have hr : Reads [] [] ts rest := Grammar.dropTree_reads h
  exact ⟨hr.suffix, fun _ => Grammar.dropTree_length h⟩

theorem skipTo {stop : Kind → Bool} : (Rule.skipTo stop).Halts (fun _ => false) ts := by
  refine dropping (dropTreesUntil_ne stop ts) fun rest h => ?_
  have hr : Reads [] [] ts rest := Grammar.dropTreesUntil_reads h
  exact ⟨hr.suffix, by rintro ⟨⟩⟩

theorem parameterRest :
    (Rule.dropping (Grammar.dropParameterRest 0)).Halts (fun _ => false) ts := by
  refine dropping (dropParameterRest_ne 0 ts) fun rest h => ?_
  have hr : Reads [] [] ts rest := Grammar.dropParameterRest_reads h
  exact ⟨hr.suffix, by rintro ⟨⟩⟩

/-- Behind the trees there is a semicolon, and it is read. -/
theorem skipToSemicolon : Rule.skipToSemicolon.Halts (fun _ => true) ts := by
  refine .bindRun skipTo fun _ rest h => ?_
  obtain ⟨t, us, rfl, -⟩ := Grammar.dropTreesUntil_stop (run_skipTo.1 h)
  exact .discard (advance_of_ne (by simp))

theorem skipToBlockOrSemicolon : Rule.skipToBlockOrSemicolon.Halts (fun _ => true) ts :=
  .bind skipTo fun _ _ _ => skipTree

theorem withText (hx : x.Halts (fun _ => b) ts) : (Rule.withText x).Halts (fun _ => b) ts := by
  refine get ?_
  cases b with
  | true => exact .read hx fun _ _ _ => get (.pure rfl)
  | false => exact .bind hx fun _ _ _ => get (.pure rfl)

/-! ## Repetition -/

/-- Of a repetition each turn ends, and reads a token if another one follows. -/
theorem many {turn : Rule (Turn α)} (ht : ∀ us, us.length ≤ ts.length → turn.Halts Turn.reads us) :
    (Rule.many turn).Halts (fun _ => false) ts := by
  change repeatTurns turn ts ≠ _ ∧ ∀ as rest, repeatTurns turn ts = _ → _
  fun_induction repeatTurns turn ts with
  | case1 ts fault h =>
    refine ⟨fun hf => (ht ts (Nat.le_refl _)).1 ?_, by rintro _ _ ⟨⟩⟩
    rw [h, Except.error.inj hf]
  | case2 ts rest h | case3 ts a rest h =>
    refine ⟨by rintro ⟨⟩, ?_⟩
    rintro as rest ⟨⟩
    exact ⟨((ht ts (Nat.le_refl _)).2 _ _ h).1, by rintro ⟨⟩⟩
  | case4 ts a mid h hlt fault hr ih =>
    have hm := ih fun us hu => ht us (by omega)
    rw [hr] at hm
    refine ⟨fun hf => hm.1 ?_, by rintro _ _ ⟨⟩⟩
    rw [Except.error.inj hf]
  | case5 ts a mid h hlt as rest hr ih =>
    have hm := ih fun us hu => ht us (by omega)
    refine ⟨by rintro ⟨⟩, ?_⟩
    rintro as rest ⟨⟩
    exact ⟨(hm.2 _ _ hr).1.trans ((ht ts (Nat.le_refl _)).2 _ _ h).1, by rintro ⟨⟩⟩
  | case6 ts a rest h hlt => exact absurd (((ht ts (Nat.le_refl _)).2 _ _ h).2 rfl) hlt

/-- Each turn reads a token, so the first one does. -/
theorem many_read {turn : Rule (Turn α)}
    (ht : ∀ us, us.length ≤ ts.length → turn.Halts (fun _ => true) us) :
    (Rule.many turn).Halts (fun _ => true) ts := by
  have hm : (Rule.many turn).Halts (fun _ => false) ts := many fun us hu => (ht us hu).mono
  refine ⟨hm.1, fun as rest hr => ⟨(hm.2 as rest hr).1, fun _ => ?_⟩⟩
  refine many_induction (fun us _ rest => us.length ≤ ts.length → rest.length < us.length)
    ?stop ?last ?more hr (Nat.le_refl _)
  case stop => exact fun us rest h hu => ((ht us hu).2 _ _ h).2 rfl
  case last => exact fun us a rest h hu => ((ht us hu).2 _ _ h).2 rfl
  case more =>
    intro us a mid as rest _ hlt _ ih hu
    have := ih (by omega)
    omega

/-! ## Lists -/

variable {closer : Kind} {element : Rule α}

/-- Behind an element that another one follows, a comma is read. -/
theorem commaList (he : ∀ us, us.length ≤ ts.length → element.Halts k us) :
    (Rule.commaList closer element).Halts (fun _ => false) ts := by
  refine many fun us hu => .isAt (.ite (fun _ => .pure rfl) fun _ => ?_)
  refine .bind (he us hu) fun a rest _ => ?_
  exact .acceptIte (fun _ _ => .pure rfl) (.pure rfl)

theorem strictCommaList {fault : Expectation}
    (he : ∀ us, us.length ≤ ts.length → element.Halts k us) :
    (Rule.strictCommaList closer fault element).Halts (fun _ => false) ts := by
  refine many fun us hu => .isAt (.ite (fun _ => .pure rfl) fun _ => ?_)
  refine .bind (he us hu) fun a rest _ => .acceptIte (fun _ _ => .pure rfl) ?_
  exact .isAt (.ite (fun _ => .pure rfl) fun _ => .refuse)

theorem moreElements (he : ∀ us, us.length < ts.length → element.Halts k us) :
    (Grammar.moreElements closer element).Halts (fun _ => false) ts := by
  refine many fun us hu => .acceptIte (fun us' hu' => ?_) (.pure rfl)
  refine .isAt (.ite (fun _ => .pure rfl) fun _ => ?_)
  exact .bind (he us' (by omega)) fun a rest _ => .pure rfl

theorem parenOrTuple {paren : α → α} {tuple : List α → α}
    (he : ∀ us, us.length < ts.length → element.Halts k us) :
    (Grammar.parenOrTuple element paren tuple).Halts (fun _ => true) ts := by
  refine .read (.discard expect) fun _ us hu => .acceptIte (fun _ _ => .pure rfl) ?_
  refine .bind (he us hu) fun first vs hv => .acceptIte (fun _ _ => .pure rfl) ?_
  refine .bind (moreElements fun xs hx => he xs (by omega)) fun more xs _ => ?_
  exact .bind (.discard expect) fun _ _ _ => .pure rfl

end Halts

end Rule

end Ferrotype
