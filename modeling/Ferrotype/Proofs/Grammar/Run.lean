import Ferrotype.Grammar.Item

/-!
# Runs of rules

What a rule of the grammar comes to on a list of tokens. A run that succeeds is taken apart by
`run_bind`; the rules at the bottom have an equation each.
-/

namespace Ferrotype

/-! ## Results -/

theorem ok_of_toOption {ε α : Type} {x : Except ε α} {a : α} (h : x.toOption = some a) :
    x = .ok a := by
  cases x with
  | error e => cases h
  | ok b => exact congrArg _ (Option.some.inj h)

theorem exists_ok_of_isSome {ε α : Type} {x : Except ε α} (h : x.toOption.isSome = true) :
    ∃ a, x = .ok a := by
  obtain ⟨a, ha⟩ := Option.isSome_iff_exists.1 h
  exact ⟨a, ok_of_toOption ha⟩

namespace Rule

variable {α β : Type} {ts rest : List Token}

/-! ## Sequences -/

theorem run_pure {a b : α} : (pure a : Rule α) ts = .ok (b, rest) ↔ a = b ∧ ts = rest := by
  change (.ok (a, ts) : Except GrammarFault _) = _ ↔ _
  simp

theorem run_bind {x : Rule α} {f : α → Rule β} {b : β} :
    (x >>= f) ts = .ok (b, rest) ↔ ∃ a mid, x ts = .ok (a, mid) ∧ f a mid = .ok (b, rest) := by
  change StateT.bind x f ts = _ ↔ _
  simp only [StateT.bind, bind, Except.bind]
  cases h : x ts with
  | error fault => simp
  | ok r => exact ⟨fun hf => ⟨r.1, r.2, rfl, hf⟩, by rintro ⟨a, mid, ⟨⟩, hf⟩; exact hf⟩

theorem bind_ok {x : Rule α} {a : α} (h : x ts = .ok (a, rest)) (f : α → Rule β) :
    (x >>= f) ts = f a rest := by
  change StateT.bind x f ts = _
  simp only [StateT.bind, h, bind, Except.bind]

theorem run_map {x : Rule α} {f : α → β} {b : β} :
    (f <$> x) ts = .ok (b, rest) ↔ ∃ a, x ts = .ok (a, rest) ∧ f a = b := by
  rw [← bind_pure_comp, run_bind]
  simp only [run_pure]
  exact ⟨fun ⟨a, _, hx, hf, hm⟩ => ⟨a, hm ▸ hx, hf⟩, fun ⟨a, hx, hf⟩ => ⟨a, rest, hx, hf, rfl⟩⟩

theorem run_discard {x : Rule α} {u : PUnit} :
    discard x ts = .ok (u, rest) ↔ ∃ a, x ts = .ok (a, rest) := by
  change (Function.const α PUnit.unit <$> x) ts = _ ↔ _
  simp [run_map]

theorem run_ite {c : Prop} [Decidable c] {x y : Rule α} {r : Except GrammarFault (α × List Token)} :
    (if c then x else y) ts = r ↔ (c ∧ x ts = r) ∨ (¬c ∧ y ts = r) := by
  split <;> simp [*]

theorem run_throw {fault : GrammarFault} {a : α} :
    (throw fault : Rule α) ts = .ok (a, rest) ↔ False := by
  simp [throw, throwThe, MonadExceptOf.throw, StateT.lift, bind, Except.bind]

theorem run_lift {e : Except GrammarFault α} {a : α} :
    (liftM e : Rule α) ts = .ok (a, rest) ↔ e = .ok a ∧ rest = ts := by
  change StateT.lift e ts = _ ↔ _
  cases e <;> simp [StateT.lift, bind, Except.bind, pure, Except.pure, eq_comm]

/-! ## The state -/

theorem run_get {s : List Token} :
    (get : Rule (List Token)) ts = .ok (s, rest) ↔ s = ts ∧ rest = ts := by
  simp [get, getThe, MonadStateOf.get, StateT.get, pure, Except.pure, eq_comm]

theorem run_set {s : List Token} {u : PUnit} :
    (set s : Rule PUnit) ts = .ok (u, rest) ↔ rest = s := by
  change (.ok (PUnit.unit, s) : Except GrammarFault _) = _ ↔ _
  simp [eq_comm]

theorem run_modify {f : List Token → List Token} {u : PUnit} :
    (modify f : Rule PUnit) ts = .ok (u, rest) ↔ rest = f ts := by
  change (.ok (PUnit.unit, f ts) : Except GrammarFault _) = _ ↔ _
  simp [eq_comm]

/-! ## Looking ahead -/

theorem run_kindAt {k : Nat} {kind : Option Kind} :
    kindAt k ts = .ok (kind, rest) ↔ kind = ts[k]?.map Token.kind ∧ rest = ts := by
  change (.ok (ts[k]?.map Token.kind, ts) : Except GrammarFault _) = _ ↔ _
  simp [eq_comm]

theorem run_ahead {test : List Token → Bool} {b : Bool} :
    ahead test ts = .ok (b, rest) ↔ b = test ts ∧ rest = ts := by
  change (.ok (test ts, ts) : Except GrammarFault _) = _ ↔ _
  simp [eq_comm]

theorem run_nextIs {p : Kind → Bool} {b : Bool} :
    nextIs p ts = .ok (b, rest) ↔ b = (ts.head?.any fun t => p t.kind) ∧ rest = ts := by
  cases ts
  all_goals
    change (.ok (_, _) : Except GrammarFault _) = _ ↔ _
    simp [eq_comm]

theorem run_isAt {kind : Kind} {b : Bool} :
    isAt kind ts = .ok (b, rest) ↔ b = Grammar.headIs kind ts ∧ rest = ts := run_nextIs

theorem run_nextText {text : String} :
    nextText ts = .ok (text, rest) ↔ text = ts.head?.elim "" Token.text ∧ rest = ts := by
  change (.ok (ts.head?.elim "" Token.text, ts) : Except GrammarFault _) = _ ↔ _
  simp [eq_comm]

theorem run_refuse {what : Expectation} {note : String} {a : α} :
    refuse what note ts = .ok (a, rest) ↔ False := by
  change (.error _ : Except GrammarFault _) = _ ↔ _
  simp

/-! ## Reading -/

theorem run_advance {t : Option Token} :
    advance ts = .ok (t, rest) ↔ t = ts.head? ∧ rest = ts.tail := by
  cases ts
  all_goals
    change (.ok (_, _) : Except GrammarFault _) = _ ↔ _
    simp [eq_comm]

theorem run_expect {kind : Kind} {note : String} {t : Token} :
    expect kind note ts = .ok (t, rest) ↔ ts = t :: rest ∧ t.kind = kind := by
  cases ts with
  | nil =>
    change (.error _ : Except GrammarFault _) = _ ↔ _
    simp
  | cons u us =>
    change (if u.kind = kind then (do set us; pure u) else throw _ : Rule Token) (u :: us) = _ ↔ _
    simp only [run_ite, run_bind, run_set, run_pure, run_throw]
    grind

theorem run_accept {kind : Kind} {b : Bool} :
    accept kind ts = .ok (b, rest) ↔
      (b = true ∧ ∃ t, ts = t :: rest ∧ t.kind = kind) ∨
        (b = false ∧ rest = ts ∧ Grammar.headIs kind ts = false) := by
  simp only [accept, run_bind, run_isAt, run_ite, run_pure, run_discard, run_advance]
  cases ts with
  | nil => simp [Grammar.headIs]
  | cons t ts =>
    simp only [Grammar.headIs, List.head?_cons, Option.any_some]
    grind

theorem accept_eq_true {kind : Kind} {t : Token} (h : t.kind = kind) :
    accept kind (t :: ts) = .ok (true, ts) := run_accept.2 (.inl ⟨rfl, t, rfl, h⟩)

theorem accept_eq_false {kind : Kind} (h : Grammar.headIs kind ts = false) :
    accept kind ts = .ok (false, ts) := run_accept.2 (.inr ⟨rfl, rfl, h⟩)

theorem run_dropping {drop : List Token → Except GrammarFault (List Token)} {u : Unit} :
    dropping drop ts = .ok (u, rest) ↔ drop ts = .ok rest := by
  simp only [dropping, run_bind, run_get, run_lift, run_set]
  grind

/-! ## Reading over -/

theorem run_skipTree {u : Unit} : skipTree ts = .ok (u, rest) ↔ Grammar.dropTree ts = .ok rest :=
  run_dropping

theorem run_skipTo {stop : Kind → Bool} {u : Unit} :
    skipTo stop ts = .ok (u, rest) ↔ Grammar.dropTreesUntil stop ts = .ok rest :=
  run_dropping

theorem run_withText {x : Rule α} {a : α} {text : String} :
    withText x ts = .ok ((a, text), rest) ↔
      x ts = .ok (a, rest) ∧ text = textOf (ts.take (ts.length - rest.length)) := by
  simp only [withText, run_bind, run_get, run_pure]
  grind

/-! ## Repetition -/

/-- What holds of a repetition: of one that stops, and of one that goes on if it holds of the rest. -/
theorem many_induction {turn : Rule (Turn α)} (motive : List Token → List α → List Token → Prop)
    (stop : ∀ ts rest, turn ts = .ok (.stop, rest) → motive ts [] rest)
    (last : ∀ ts a rest, turn ts = .ok (.last a, rest) → motive ts [a] rest)
    (more : ∀ ts a mid as rest, turn ts = .ok (.more a, mid) → mid.length < ts.length →
      many turn mid = .ok (as, rest) → motive mid as rest → motive ts (a :: as) rest)
    {as : List α} (h : many turn ts = .ok (as, rest)) : motive ts as rest := by
  change repeatTurns turn ts = _ at h
  fun_induction repeatTurns turn ts generalizing as with
  | case1 | case6 => cases h
  | case2 ts rest ht => cases h; exact stop _ _ ht
  | case3 ts a rest ht => cases h; exact last _ _ _ ht
  | case4 ts a mid ht _ fault hr ih => simp at h
  | case5 ts a mid ht hlt as' rest' hr ih =>
    cases h
    exact more _ _ _ _ _ ht hlt hr (ih hr)

/-! ### One turn of a repetition -/

theorem many_stop {turn : Rule (Turn α)} (h : turn ts = .ok (.stop, rest)) :
    many turn ts = .ok ([], rest) := by
  change repeatTurns turn ts = _
  rw [repeatTurns, h]

theorem many_last {turn : Rule (Turn α)} {a : α} (h : turn ts = .ok (.last a, rest)) :
    many turn ts = .ok ([a], rest) := by
  change repeatTurns turn ts = _
  rw [repeatTurns, h]

theorem many_more {turn : Rule (Turn α)} {a : α} {mid : List Token} {as : List α}
    (h : turn ts = .ok (.more a, mid)) (hlt : mid.length < ts.length)
    (hr : many turn mid = .ok (as, rest)) : many turn ts = .ok (a :: as, rest) := by
  change repeatTurns turn ts = _
  change repeatTurns turn mid = _ at hr
  rw [repeatTurns, h]
  simp [hlt, hr]

end Rule

end Ferrotype
